import RwModbus.Scada

/-!
# What the SCADA programs find and leave

Programs address variables by short names. A read gives what the server holds
under the full name; it and every write leave the variables with other short
names as they are.
-/
namespace RwModbus.Scada
open Numeric Registers Opc

/-- What stands after the last slash. -/
def shortName (t : Name) : String := String.ofList (OpcServer.baseName t)

/-- The name is not a path. -/
def Plain (svar : String) : Prop := '/' ∉ svar.toList

instance (svar : String) : Decidable (Plain svar) := inferInstanceAs (Decidable (¬ _))

theorem baseName_of_notMem {x : Name} (h : '/' ∉ x) : OpcServer.baseName x = x := by
  rw [OpcServer.baseName, List.rtakeWhile_eq_self_iff]
  intro c hc
  simpa using fun heq : c = '/' => h (heq ▸ hc)

theorem baseName_findFullName {x : Name} (h : '/' ∉ x) (keys : List Name) :
    OpcServer.baseName (OpcServer.findFullName x keys) = x := by
  induction keys with
  | nil => exact baseName_of_notMem h
  | cons ss rest ih =>
      unfold OpcServer.findFullName
      split_ifs with heq hbase
      · exact baseName_of_notMem h
      · exact hbase.2.2
      · exact ih

theorem shortName_getVarFullName {svar : String} (h : Plain svar) (o : OpcServer) :
    shortName (o.getVarFullName svar.toList) = svar := by
  rw [shortName, OpcServer.getVarFullName, baseName_findFullName h, String.ofList_toList]

/-- The second server is the first but for what the variables with the short
names `N` hold, and for cached values. -/
structure Keeps (N : List String) (o o' : OpcServer) : Prop where
  keys : o'.vars.keys = o.vars.keys
  wrStatus : o'.wrStatus = o.wrStatus
  isVar : ∀ t, (o'.vars.val t).isVar = (o.vars.val t).isVar
  uaType : ∀ t, (o'.vars.val t).uaType = (o.vars.val t).uaType
  node : ∀ t, shortName t ∉ N → (o'.vars.val t).node = (o.vars.val t).node
  uaStatus : ∀ t, shortName t ∉ N → (o'.vars.val t).uaStatus = (o.vars.val t).uaStatus

namespace Keeps
variable {N M : List String} {o o₁ o₂ : OpcServer}

theorem refl (N : List String) (o : OpcServer) : Keeps N o o :=
  ⟨rfl, rfl, fun _ => rfl, fun _ => rfl, fun _ _ => rfl, fun _ _ => rfl⟩

theorem symm (h : Keeps N o o₁) : Keeps N o₁ o :=
  ⟨h.keys.symm, h.wrStatus.symm, fun t => (h.isVar t).symm, fun t => (h.uaType t).symm,
    fun t ht => (h.node t ht).symm, fun t ht => (h.uaStatus t ht).symm⟩

theorem mono (h : Keeps N o o₁) (hNM : N ⊆ M) : Keeps M o o₁ :=
  ⟨h.keys, h.wrStatus, h.isVar, h.uaType, fun t ht => h.node t fun hs => ht (hNM hs),
    fun t ht => h.uaStatus t fun hs => ht (hNM hs)⟩

theorem trans (h : Keeps N o o₁) (h' : Keeps N o₁ o₂) : Keeps N o o₂ :=
  ⟨h'.keys.trans h.keys, h'.wrStatus.trans h.wrStatus, fun t => (h'.isVar t).trans (h.isVar t),
    fun t => (h'.uaType t).trans (h.uaType t), fun t ht => (h'.node t ht).trans (h.node t ht),
    fun t ht => (h'.uaStatus t ht).trans (h.uaStatus t ht)⟩

theorem isVariable (h : Keeps N o o₁) (t : Name) : o₁.isVariable t = o.isVariable t := by
  simp only [OpcServer.isVariable, h.keys, h.isVar]

theorem getVarFullName (h : Keeps N o o₁) (x : Name) : o₁.getVarFullName x = o.getVarFullName x := by
  simp only [OpcServer.getVarFullName, h.keys]

theorem ofTouches {S : Set Name} (h : OpcServer.Touches S o o₁) (hS : ∀ t ∈ S, shortName t ∈ N) :
    Keeps N o o₁ :=
  ⟨h.keys, h.wrStatus, h.isVar, h.uaType,
    fun t ht => congrArg UaVar.node (h.others t fun hs => ht (hS t hs)),
    fun t ht => congrArg UaVar.uaStatus (h.others t fun hs => ht (hS t hs))⟩

end Keeps

theorem refreshRawValue_keeps (data : Option NumericU) (t : Name) (o : OpcServer) :
    Keeps [] o (OpcServer.refreshRawValue data t o).1 := by
  have htouch := OpcServer.refreshRawValue_touches data t o
  refine ⟨htouch.keys, htouch.wrStatus, htouch.isVar, htouch.uaType, fun u _ => ?_, fun u _ => ?_⟩
  · rw [OpcServer.refreshRawValue_val]
    split_ifs
    · cases data <;> rfl
    · rfl
  · rw [OpcServer.refreshRawValue_val]
    split_ifs
    · exact OpcServer.refreshVar_uaStatus data _
    · rfl

/-- What a read under a short name gives, `x` being the number before it, and
whether the read is good. -/
def reading (env : Env) (o : OpcServer) (svar : String) (x : NumericU) : NumericU × Bool :=
  let name := o.getVarFullName svar.toList
  (OpcServer.readNumber (env.node name) name x o).2

theorem reading_eq (env : Env) (o : OpcServer) (svar : String) (x : NumericU) :
    reading env o svar x =
      let name := o.getVarFullName svar.toList
      match env.node name with
      | some beyond =>
          if o.isVariable name then
            (NumericU.overlay (o.vars.val name).uaType.words (o.vars.val name).node beyond,
              (o.vars.val name).uaStatus == statusGood)
          else (x, false)
      | none => (x, false) := by
  unfold reading OpcServer.readNumber
  generalize o.getVarFullName svar.toList = name
  dsimp only
  by_cases hv : o.isVariable name = true
  · rw [if_pos hv]
    cases env.node name with
    | none => rfl
    | some beyond =>
        have hgood := (refreshRawValue_keeps (some beyond) name o).isVariable name
        simp only [OpcServer.refreshRawValue, hv, if_true] at hgood ⊢
        simp [OpcServer.isGood, hgood]
  · rw [if_neg hv]
    cases env.node name <;> simp [hv]

/-- The two environments give the same data for the short name. -/
structure SameData (svar : String) (env env' : Env) : Prop where
  node : ∀ t, shortName t = svar → env'.node t = env.node t
  unset : env'.unset svar = env.unset svar

theorem SameData.refl (svar : String) (env : Env) : SameData svar env env := ⟨fun _ _ => rfl, rfl⟩

/-- A variable outside the frame reads the same. -/
theorem reading_congr {N : List String} {env env' : Env} {o o' : OpcServer} {svar : String}
    (ho : Keeps N o o') (hplain : Plain svar) (hN : svar ∉ N) (henv : SameData svar env env')
    (x : NumericU) : reading env' o' svar x = reading env o svar x := by
  have hshort := shortName_getVarFullName hplain o
  have hout : shortName (o.getVarFullName svar.toList) ∉ N := by rwa [hshort]
  simp only [reading_eq, ho.getVarFullName, henv.node _ hshort, ho.isVariable, ho.uaType,
    ho.node _ hout, ho.uaStatus _ hout]

section
variable {α β : Type}

@[simp] theorem bind_apply (m : ScadaM α) (f : α → ScadaM β) (s : ScadaState) :
    (m >>= f) s = f (m s).1 (m s).2 := rfl

@[simp] theorem pure_apply (a : α) (s : ScadaState) : (pure a : ScadaM α) s = (a, s) := rfl

@[simp] theorem get_apply (s : ScadaState) : (get : ScadaM ScadaState) s = (s, s) := rfl

@[simp] theorem setVars_apply (f : Globals → Globals) (s : ScadaState) :
    setVars f s = ((), s.mapVars f) := rfl

@[simp] theorem mapVars_vars (f : Globals → Globals) (s : ScadaState) :
    (s.mapVars f).vars = f s.vars := rfl

@[simp] theorem mapVars_opcs (f : Globals → Globals) (s : ScadaState) :
    (s.mapVars f).opcs = s.opcs := rfl

theorem onlyIf_true (m : ScadaM Unit) : onlyIf true m = m := rfl

theorem onlyIf_false (m : ScadaM Unit) : onlyIf false m = pure () := rfl

end

/-- From `s` a program reaches `s'`: it changed variables with the short names
`N` only, and logged `w`. -/
structure Leaves (N : List String) (w : List (String × NumericU)) (s s' : ScadaState) : Prop where
  opcs : Keeps N s.opcs s'.opcs
  written : s'.written = w ++ s.written

theorem mapVars_leaves (f : Globals → Globals) (s : ScadaState) : Leaves [] [] s (s.mapVars f) :=
  ⟨Keeps.refl _ _, rfl⟩

theorem Leaves.trans {N M : List String} {w w' : List (String × NumericU)} {s s₁ s₂ : ScadaState}
    (h : Leaves N w s s₁) (h' : Leaves M w' s₁ s₂) : Leaves (N ++ M) (w' ++ w) s s₂ :=
  ⟨(h.opcs.mono (List.subset_append_left N M)).trans
      (h'.opcs.mono (List.subset_append_right N M)),
    by rw [h'.written, h.written, List.append_assoc]⟩

theorem readNumber_leaves (env : Env) (svar : String) (x : NumericU) (s : ScadaState) :
    Leaves [] [] s (readNumber env svar x s).2 := by
  refine ⟨?_, rfl⟩
  rw [readNumber]
  dsimp only
  rw [OpcServer.readNumber_fst]
  exact refreshRawValue_keeps _ _ _

@[simp] theorem readNumber_fst (env : Env) (svar : String) (x : NumericU) (s : ScadaState) :
    (readNumber env svar x s).1 = reading env s.opcs svar x := rfl

@[simp] theorem readNumber_vars (env : Env) (svar : String) (x : NumericU) (s : ScadaState) :
    (readNumber env svar x s).2.vars = s.vars := rfl

theorem readInt_snd (env : Env) (svar : String) (s : ScadaState) :
    (readInt env svar s).2 = (readNumber env svar (env.unset svar) s).2 := rfl

/-- The 16-bit number under a short name. -/
def level (env : Env) (o : OpcServer) (svar : String) : Word :=
  (reading env o svar (env.unset svar)).1.ui16

theorem level_congr {N : List String} {env env' : Env} {o o' : OpcServer} {svar : String}
    (ho : Keeps N o o') (hplain : Plain svar) (hN : svar ∉ N) (henv : SameData svar env env') :
    level env' o' svar = level env o svar := by
  rw [level, level, reading_congr ho hplain hN henv, henv.unset]

@[simp] theorem readU16_fst (env : Env) (svar : String) (s : ScadaState) :
    (readU16 env svar s).1 = level env s.opcs svar := rfl

@[simp] theorem readU16_vars (env : Env) (svar : String) (s : ScadaState) :
    (readU16 env svar s).2.vars = s.vars := rfl

theorem readU16_leaves (env : Env) (svar : String) (s : ScadaState) :
    Leaves [] [] s (readU16 env svar s).2 := readNumber_leaves env svar (env.unset svar) s

/-- The configured power of a level. -/
def configured (env : Env) (o : OpcServer) : Option String → Word
  | some svar => level env o svar
  | none => 0

@[simp] theorem readLevel_fst (env : Env) (r : Option String) (s : ScadaState) :
    (readLevel env r s).1 = configured env s.opcs r := by
  cases r <;> rfl

@[simp] theorem readLevel_vars (env : Env) (r : Option String) (s : ScadaState) :
    (readLevel env r s).2.vars = s.vars := by
  cases r <;> rfl

theorem readLevel_leaves (env : Env) (r : Option String) (s : ScadaState) :
    Leaves [] [] s (readLevel env r s).2 := by
  cases r with
  | none => exact ⟨Keeps.refl _ _, rfl⟩
  | some svar => exact readU16_leaves env svar s

theorem configured_congr {N : List String} {env env' : Env} {o o' : OpcServer} {r : Option String}
    (ho : Keeps N o o') (hplain : ∀ svar ∈ r, Plain svar ∧ svar ∉ N)
    (henv : ∀ svar ∈ r, SameData svar env env') : configured env' o' r = configured env o r := by
  cases r with
  | none => rfl
  | some svar => exact level_congr ho (hplain svar rfl).1 (hplain svar rfl).2 (henv svar rfl)

/-- The binary32 under a short name. -/
def temperature (env : Env) (o : OpcServer) (svar : String) : Float32 :=
  (reading env o svar (env.unset svar)).1.ui32

theorem temperature_congr {N : List String} {env env' : Env} {o o' : OpcServer} {svar : String}
    (ho : Keeps N o o') (hplain : Plain svar) (hN : svar ∉ N) (henv : SameData svar env env') :
    temperature env' o' svar = temperature env o svar := by
  rw [temperature, temperature, reading_congr ho hplain hN henv, henv.unset]

@[simp] theorem readFloat_fst (env : Env) (svar : String) (s : ScadaState) :
    (readFloat env svar s).1 = temperature env s.opcs svar := rfl

@[simp] theorem readFloat_vars (env : Env) (svar : String) (s : ScadaState) :
    (readFloat env svar s).2.vars = s.vars := rfl

theorem readFloat_leaves (env : Env) (svar : String) (s : ScadaState) :
    Leaves [] [] s (readFloat env svar s).2 := readNumber_leaves env svar (env.unset svar) s

theorem writeNumber_leaves (env : Env) (svar : String) (h : Plain svar) (n : ℕ) (x : NumericU)
    (s : ScadaState) : Leaves [svar] [(svar, x)] s (writeNumber env svar n x s).2 := by
  refine ⟨Keeps.ofTouches (OpcServer.writeNumber_touches _ _ _ _) ?_, rfl⟩
  rintro t rfl
  simp [shortName_getVarFullName h]

@[simp] theorem writeNumber_vars (env : Env) (svar : String) (n : ℕ) (x : NumericU) (s : ScadaState) :
    (writeNumber env svar n x s).2.vars = s.vars := rfl

theorem writeU16_leaves (env : Env) (svar : String) (h : Plain svar) (x : Word) (s : ScadaState) :
    Leaves [svar] [(svar, .ofUi16 x)] s (writeU16 env svar x s).2 := by
  refine ⟨Keeps.ofTouches (OpcServer.writeValue_touches _ _ _ _ _) ?_, rfl⟩
  rintro t rfl
  simp [shortName_getVarFullName h]

@[simp] theorem writeU16_vars (env : Env) (svar : String) (x : Word) (s : ScadaState) :
    (writeU16 env svar x s).2.vars = s.vars := rfl

/-- What reading back a 16-bit number gives after it was written. -/
def readBack (env : Env) (o : OpcServer) (svar : String) (x : Word) : Word :=
  let name := o.getVarFullName svar.toList
  if o.isVariable name ∧ (env.node name).isSome then
    if o.wrStatus name = statusGood then x else (o.vars.val name).node.ui16
  else (env.unset svar).ui16

theorem level_writeU16 (env : Env) (svar : String) (x : Word) (s : ScadaState) :
    level env (writeU16 env svar x s).2.opcs svar = readBack env s.opcs svar x := by
  set name := s.opcs.getVarFullName svar.toList with hname
  set bytes := NumericU.overlay 1 (.ofUi16 x) (env.stack svar)
  have hopcs : (writeU16 env svar x s).2.opcs =
      OpcServer.writeValue (env.node name) svar.toList bytes true s.opcs := rfl
  have htouch := OpcServer.writeValue_touches (env.node name) svar.toList bytes true s.opcs
  have hname' : (OpcServer.writeValue (env.node name) svar.toList bytes true
      s.opcs).getVarFullName svar.toList = name := by
    rw [OpcServer.getVarFullName, htouch.keys, hname, OpcServer.getVarFullName]
  rw [level, reading_eq, hopcs, hname', readBack, ← hname]
  simp only [htouch.isVariable]
  by_cases hv : s.opcs.isVariable name = true
  · have hval := OpcServer.writeValue_val hv (env.node name) bytes true
    have hwords := (s.opcs.vars.val name).uaType.words_pos
    rw [← hname] at hval
    cases hdata : env.node name with
    | none => simp
    | some beyond =>
        rw [hdata] at hval
        simp only [hv, hval, OpcServer.writeVariable, if_true, Option.isSome_some, and_true]
        split_ifs <;> simp [NumericU.overlay, NumericU.typed, NumericU.ui16, hwords, bytes,
          NumericU.ofUi16]
  · cases env.node name <;> simp [hv]

/-- The latest number written under the short name. -/
def lastWritten (svar : String) (s : ScadaState) : Option NumericU :=
  (s.written.find? fun e => e.1 = svar).map Prod.snd

theorem lastWritten_writeU16 (env : Env) (svar : String) (x : Word) (s : ScadaState) :
    lastWritten svar (writeU16 env svar x s).2 = some (.ofUi16 x) := by
  have hlog : (writeU16 env svar x s).2.written = (svar, .ofUi16 x) :: s.written := rfl
  simp [lastWritten, hlog]

theorem lastWritten_leaves {N : List String} {w : List (String × NumericU)} {s s' : ScadaState}
    (svar : String) (h : Leaves N w s s') (hw : ∀ e ∈ w, e.1 ≠ svar) :
    lastWritten svar s' = lastWritten svar s := by
  have hnone : w.find? (fun e => e.1 = svar) = none := by simpa using hw
  rw [lastWritten, h.written, List.find?_append, hnone, Option.none_or, lastWritten]

theorem readBack_congr {N : List String} {env env' : Env} {o o' : OpcServer} {svar : String}
    (ho : Keeps N o o') (hplain : Plain svar) (hN : svar ∉ N) (henv : SameData svar env env')
    (x : Word) : readBack env' o' svar x = readBack env o svar x := by
  have hshort := shortName_getVarFullName hplain o
  have hout : shortName (o.getVarFullName svar.toList) ∉ N := by rwa [hshort]
  simp only [readBack, ho.getVarFullName, henv.node _ hshort, henv.unset, ho.isVariable,
    ho.wrStatus, ho.node _ hout]

/-- The two states and what the two passes meet are the same but for the variable
with this short name. -/
structure AlikeBut (svar : String) (env env' : Env) (s s' : ScadaState) : Prop where
  vars : s'.vars = s.vars
  opcs : Keeps [svar] s.opcs s'.opcs
  data : ∀ n, n ≠ svar → SameData n env env'

/-- A server with the named variables, all writable. -/
def serverOf (names : List String) (h : (names.map String.toList).Pairwise (· < ·))
    (f : String → UaVar) : OpcServer :=
  ⟨⟨names.map String.toList, h, fun t => f (String.ofList t)⟩, fun _ => statusGood⟩

/-- A pass in which every node gives its scalar, with zeros around. -/
def quiet : Env := ⟨fun _ => some {}, fun _ => {}, fun _ => {}⟩

theorem serverOf_keeps {N names : List String} (h : (names.map String.toList).Pairwise (· < ·))
    {f f' : String → UaVar} (htype : ∀ n, (f' n).isVar = (f n).isVar ∧ (f' n).uaType = (f n).uaType)
    (hout : ∀ n, shortName n.toList ∉ N → f' n = f n) :
    Keeps N (serverOf names h f) (serverOf names h f') := by
  have hval : ∀ t, shortName t ∉ N → f' (String.ofList t) = f (String.ofList t) := fun t ht =>
    hout _ (by rwa [String.toList_ofList])
  exact ⟨rfl, rfl, fun t => (htype _).1, fun t => (htype _).2,
    fun t ht => congrArg UaVar.node (hval t ht), fun t ht => congrArg UaVar.uaStatus (hval t ht)⟩

theorem reading_serverOf {names : List String} (h : (names.map String.toList).Pairwise (· < ·))
    {f : String → UaVar} {svar : String} (full : String)
    (hfind : OpcServer.findFullName svar.toList (names.map String.toList) = full.toList)
    (hmem : full ∈ names) (hvar : (f full).isVar = true) (hgood : (f full).uaStatus = statusGood)
    (x : NumericU) : reading quiet (serverOf names h f) svar x =
      (NumericU.overlay (f full).uaType.words (f full).node {}, true) := by
  have hname : (serverOf names h f).getVarFullName svar.toList = full.toList := hfind
  have hval : (serverOf names h f).vars.val full.toList = f full :=
    congrArg f (String.ofList_toList (s := full))
  have hisVar : (serverOf names h f).isVariable full.toList = true := by
    rw [OpcServer.isVariable, hval, hvar, Bool.and_true, decide_eq_true_eq]
    exact List.mem_map_of_mem hmem
  simp only [reading_eq, hname, hval, hisVar, hgood, quiet, if_true]
  rfl

theorem reading_serverOf_none {names : List String} (h : (names.map String.toList).Pairwise (· < ·))
    {f : String → UaVar} {svar : String}
    (hfind : OpcServer.findFullName svar.toList (names.map String.toList) = svar.toList)
    (hmem : svar.toList ∉ names.map String.toList) (x : NumericU) :
    reading quiet (serverOf names h f) svar x = (x, false) := by
  have hname : (serverOf names h f).getVarFullName svar.toList = svar.toList := hfind
  have hisVar : (serverOf names h f).isVariable svar.toList = false := by
    rw [OpcServer.isVariable, Bool.and_eq_false_iff]
    exact .inl (decide_eq_false hmem)
  simp [reading_eq, hname, hisVar, quiet]

end RwModbus.Scada
