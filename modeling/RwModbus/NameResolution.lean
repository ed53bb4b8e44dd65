import RwModbus.OpcServer

/-!
# Which name a string stands for

`GetVarFullName` stops at the first key, in the order of the map, that is the string
or has it as last segment. A key that is the string itself may come second.
-/
namespace RwModbus.Opc.OpcServer
open Numeric Registers

/-- The key has a slash and the string behind its last one. -/
def LastSegment (s ss : Name) : Prop := '/' ∈ ss ∧ baseName ss = s

instance (s ss : Name) : Decidable (LastSegment s ss) := inferInstanceAs (Decidable (_ ∧ _))

/-- What stops the loop. -/
def stops (s ss : Name) : Bool := decide (ss = s ∨ LastSegment s ss)

theorem stops_iff {s ss : Name} : stops s ss = true ↔ ss = s ∨ LastSegment s ss := decide_eq_true_iff

/-- The search for a substring excludes nothing. -/
theorem LastSegment.isInfix {s ss : Name} (h : LastSegment s ss) : s <:+: ss :=
  h.2 ▸ (List.rtakeWhile_suffix _ ss).isInfix

theorem findFullName_eq (s : Name) (keys : List Name) :
    findFullName s keys = (keys.find? (stops s)).getD s := by
  induction keys with
  | nil => rfl
  | cons ss rest ih =>
      rw [findFullName, List.find?_cons]
      by_cases heq : ss = s
      · simp [stops, heq]
      by_cases hlast : LastSegment s ss
      · have hsearch : s <:+: ss ∧ '/' ∈ ss ∧ baseName ss = s := ⟨hlast.isInfix, hlast⟩
        rw [if_neg heq, if_pos hsearch, stops_iff.mpr (Or.inr hlast)]
        rfl
      · rw [if_neg heq, if_neg fun h => hlast h.2, ih]
        simp [stops, heq, hlast]

/-- How the loop can end. -/
theorem getVarFullName_cases (o : OpcServer) (s : Name) :
    (o.getVarFullName s = s ∧ ∀ ss ∈ o.vars.keys, ss ≠ s ∧ ¬ LastSegment s ss) ∨
    (o.getVarFullName s ∈ o.vars.keys ∧
      (o.getVarFullName s = s ∨ LastSegment s (o.getVarFullName s)) ∧
      ∀ ss ∈ o.vars.keys, ss = s ∨ LastSegment s ss → o.getVarFullName s ≤ ss) := by
  rw [getVarFullName, findFullName_eq]
  cases hfind : o.vars.keys.find? (stops s) with
  | none =>
      refine Or.inl ⟨rfl, fun ss hss => ?_⟩
      exact not_or.mp fun h => List.find?_eq_none.mp hfind ss hss (stops_iff.mpr h)
  | some ss =>
      refine Or.inr ⟨List.mem_of_find?_eq_some hfind, stops_iff.mp (List.find?_some hfind), ?_⟩
      exact fun t ht hstop => KeyedMap.find?_least hfind ht (stops_iff.mpr hstop)

/-- A string that is a key stands for itself; any other for a key with this last
segment, if there is one, and else for itself. Its full name stands for itself. -/
structure Resolved (o : OpcServer) (s : Name) : Prop where
  key : s ∈ o.vars.keys → o.getVarFullName s = s
  segment : s ∉ o.vars.keys → (∃ ss ∈ o.vars.keys, LastSegment s ss) →
    o.getVarFullName s ∈ o.vars.keys ∧ LastSegment s (o.getVarFullName s)
  unknown : s ∉ o.vars.keys → (¬ ∃ ss ∈ o.vars.keys, LastSegment s ss) → o.getVarFullName s = s
  again : o.getVarFullName (o.getVarFullName s) = o.getVarFullName s

theorem getVarFullName_segment {o : OpcServer} {s : Name} (hs : s ∉ o.vars.keys)
    (h : ∃ ss ∈ o.vars.keys, LastSegment s ss) :
    o.getVarFullName s ∈ o.vars.keys ∧ LastSegment s (o.getVarFullName s) := by
  obtain ⟨ss, hss, hlast⟩ := h
  rcases getVarFullName_cases o s with ⟨-, hnone⟩ | ⟨hmem, hstop, -⟩
  · exact absurd hlast (hnone ss hss).2
  · exact ⟨hmem, hstop.resolve_left fun heq => hs (heq ▸ hmem)⟩

theorem getVarFullName_unknown {o : OpcServer} {s : Name}
    (h : ¬ ∃ ss ∈ o.vars.keys, LastSegment s ss) : o.getVarFullName s = s := by
  rcases getVarFullName_cases o s with ⟨heq, -⟩ | ⟨hmem, hstop, -⟩
  · exact heq
  · exact hstop.resolve_right fun hlast => h ⟨_, hmem, hlast⟩

theorem getVarFullName_again (o : OpcServer) (s : Name) :
    o.getVarFullName (o.getVarFullName s) = o.getVarFullName s := by
  rcases getVarFullName_cases o s with ⟨heq, -⟩ | ⟨-, heq | hlast, -⟩
  · rw [heq, heq]
  · rw [heq, heq]
  · exact getVarFullName_of_slash hlast.1 o

/-- A key stands for itself if no key before it has it as last segment. -/
theorem getVarFullName_key {o : OpcServer} {s : Name} (hs : s ∈ o.vars.keys) :
    o.getVarFullName s = s ↔ ∀ ss ∈ o.vars.keys, ss < s → ¬ LastSegment s ss := by
  rcases getVarFullName_cases o s with ⟨-, hnone⟩ | ⟨hmem, hstop, hleast⟩
  · exact absurd rfl (hnone s hs).1
  constructor
  · intro heq ss hss hlt hlast
    have hle := hleast ss hss (Or.inr hlast)
    rw [heq] at hle
    exact absurd hlt (not_lt.mpr hle)
  · intro h
    refine hstop.resolve_right fun hlast => ?_
    rcases (hleast s hs (Or.inl rfl)).lt_or_eq with hlt | heq
    · exact h _ hmem hlt hlast
    · rw [heq] at hlast
      have hnot := slash_notMem_baseName s
      rw [hlast.2] at hnot
      exact absurd hlast.1 hnot

/-- For every server and every string: all this holds exactly if the string is no key or
no key before it has it as last segment. -/
theorem resolved_iff (o : OpcServer) (s : Name) : Resolved o s ↔
    (s ∈ o.vars.keys → ∀ ss ∈ o.vars.keys, ss < s → ¬ LastSegment s ss) := by
  constructor
  · exact fun h hs => (getVarFullName_key hs).mp (h.key hs)
  · intro h
    exact ⟨fun hs => (getVarFullName_key hs).mpr (h hs), getVarFullName_segment,
      fun _ => getVarFullName_unknown, getVarFullName_again o s⟩

/-- With the variables `/a/x` and `x`, the second is not found under its own name. -/
theorem resolved_fails : ¬ ∀ (o : OpcServer) (s : Name), Resolved o s := by
  intro h
  have hkey := (h ⟨((KeyedMap.empty fun _ => { uaType := .uint16 }).insert ['/', 'a', '/', 'x']
    { uaType := .uint16 }).insert ['x'] { uaType := .uint16 }, fun _ => statusGood⟩ ['x']).key
    (by decide)
  exact absurd hkey (by decide)

end RwModbus.Opc.OpcServer
