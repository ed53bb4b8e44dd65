import RwModbus.Loader
import RwModbus.Refresh

/-!
# The variables of a loaded configuration

`AddVar` with the folders above a variable, and `opc_regs_init`, which asks the
server for the variables of every entry. Node ids, display names and access levels
are left out. Eight bytes are copied from the address of a scalar, so the bytes
beyond it are given for each name.
-/
namespace RwModbus.OpcRegs
open Numeric Registers Reg Opc Refresh Loader

/-- `//` stands somewhere in the name. -/
def DblSlash (s : Name) : Prop := ['/', '/'] <:+: s

instance (s : Name) : Decidable (DblSlash s) := inferInstanceAs (Decidable (_ <:+: _))

/-- `get_PathName`: the path that remains when the variable's own name is cut off. -/
def getPathName (name : Name) : Name :=
  if '/' ∉ name then ['/']
  else
    let path := if name.head? = some '/' then name else '/' :: name
    if name.getLast? = some '/' then path else path.rdropWhile (· ≠ '/')

/-- `get_PathByLevel`: the path down to the folder at this level. -/
def getPathByLevel (path : Name) (level : ℕ) : Name :=
  let path := path.tail
  let index := (List.range level).foldl
    (fun index _ => index + 1 + (path.drop (index + 1)).idxOf '/') 0
  '/' :: path.take index ++ ['/']

/-- A folder; its `ua_type` is never set and never read. -/
def folderVar : UaVar where
  isVar := false
  uaType := .uint16

def addFolderToParent (path : Name) (o : OpcServer) : OpcServer :=
  { o with vars := o.vars.insert path folderVar }

/-- `get_FolderNodeId` without its result: the missing folders along the path. -/
def getFolderNodeId (path : Name) (o : OpcServer) : OpcServer :=
  if path ∈ o.vars.keys then o
  else
    (List.range (path.count '/' - 1)).foldl (fun o i =>
      let folder := getPathByLevel path (i + 1)
      if folder ∈ o.vars.keys then o else addFolderToParent folder o) o

/-- A call of `AddVar`. -/
structure Request where
  name : Name
  uaType : UaType
  value : NumericU
deriving DecidableEq, Repr

/-- The new variable once `add_Variable` has put the scalar into the server. -/
def Request.var (q : Request) : UaVar where
  uaType := q.uaType
  node := q.value.typed q.uaType.words

/-- `add_VarName` for a name that it does not refuse. -/
def addVarName (q : Request) (o : OpcServer) : OpcServer :=
  { o with vars := o.vars.insert q.name q.var }

/-- `add_VarNodeId` without the ids: a variable at the top needs no folder. -/
def addVarNodeId (name : Name) (o : OpcServer) : OpcServer :=
  if getPathName name = ['/'] then o else getFolderNodeId (getPathName name) o

/-- `AddVar`. A name that exists or has a double slash is refused. -/
def addVar (beyond : Name → NumericU) (o : OpcServer) (q : Request) : OpcServer :=
  if q.name ∈ o.vars.keys ∨ DblSlash q.name then o
  else
    ((addVarNodeId q.name (addVarName q o)).writeNumber q.name
      (q.value.overlay q.uaType.words (beyond q.name)) true).1

def errFolder : Name := ['/', 'E', 'R', 'R', 'O', 'R', 'S']
def errSuffix : Name := ['.', 'e', 'r', 'r', 'o', 'r']

def errName (s : Name) : Name := errFolder ++ s ++ errSuffix

/-- What `opc_regs_init` asks for on behalf of an entry, in order: a status variable
for a heartbeat, an error counter and the variable itself if its type has one. -/
def requests (rm : RegC) : List Request :=
  (if millisSuffix <:+ rm.strOpcname
    then [⟨statusName rm.strOpcname, .int16, .ofUi16 0xffff⟩] else []) ++
  ⟨errName rm.strOpcname, .uint16, {}⟩ ::
  (rm.prop.rtype.uaType.map fun t => ⟨rm.strOpcname, t, rm.number⟩).toList

def allRequests (R : KeyedMap Name RegC) : List Request := R.keys.flatMap fun n => requests (R.val n)

def opcRegsInit (beyond : Name → NumericU) (R : KeyedMap Name RegC) (o : OpcServer) : OpcServer :=
  (allRequests R).foldl (addVar beyond) o

/-- `init_all` up to the start of the tasks. -/
def initAll (wrStatus : Name → StatusCode) (beyond : Name → NumericU) (c : Config) :
    Option Gateway :=
  (cfgMaster c).map fun r =>
    let R := r.2.map Entry.toRegC
    { plcs := r.1.vec
      regmap := R
      opcs := opcRegsInit beyond R ⟨.empty fun _ => { uaType := .uint16 }, wrStatus⟩ }

def Folder (t : Name) : Prop := ∃ p, t = '/' :: p ++ ['/']

/-- The second server is the first with more folders. -/
structure MoreFolders (o o' : OpcServer) : Prop where
  wrStatus : o'.wrStatus = o.wrStatus
  old : ∀ t ∈ o.vars.keys, t ∈ o'.vars.keys ∧ o'.vars.val t = o.vars.val t
  new : ∀ t ∈ o'.vars.keys, t ∉ o.vars.keys → Folder t ∧ (o'.vars.val t).isVar = false

theorem MoreFolders.refl (o : OpcServer) : MoreFolders o o :=
  ⟨rfl, fun _ ht => ⟨ht, rfl⟩, fun _ ht hn => absurd ht hn⟩

theorem MoreFolders.trans {o₁ o₂ o₃ : OpcServer} (h : MoreFolders o₁ o₂) (h' : MoreFolders o₂ o₃) :
    MoreFolders o₁ o₃ := by
  refine ⟨h'.wrStatus.trans h.wrStatus, fun t ht => ?_, fun t ht hn => ?_⟩
  · obtain ⟨hmem, hval⟩ := h.old t ht
    obtain ⟨hmem', hval'⟩ := h'.old t hmem
    exact ⟨hmem', hval'.trans hval⟩
  · by_cases hmid : t ∈ o₂.vars.keys
    · rw [(h'.old t hmid).2]
      exact h.new t hmid hn
    · exact h'.new t ht hmid

theorem addFolderToParent_more {path : Name} (hf : Folder path) {o : OpcServer}
    (hn : path ∉ o.vars.keys) : MoreFolders o (addFolderToParent path o) := by
  refine ⟨rfl, fun t ht => ⟨KeyedMap.mem_insert_keys.mpr (Or.inr ht), ?_⟩, fun t ht hnt => ?_⟩
  · exact KeyedMap.insert_val_of_ne _ (fun h : t = path => hn (h ▸ ht)) _
  · obtain rfl := (KeyedMap.mem_insert_keys.mp ht).resolve_right hnt
    exact ⟨hf, by simp [addFolderToParent, folderVar]⟩

theorem getFolderNodeId_more (path : Name) (o : OpcServer) :
    MoreFolders o (getFolderNodeId path o) := by
  unfold getFolderNodeId
  split_ifs
  · exact MoreFolders.refl o
  · refine List.foldlRecOn (motive := fun o' => MoreFolders o o') _ _ (MoreFolders.refl o) ?_
    intro o' ho' i _
    dsimp only
    split_ifs with hmem
    · exact ho'
    · exact ho'.trans (addFolderToParent_more ⟨_, rfl⟩ hmem)

theorem addVarNodeId_more (name : Name) (o : OpcServer) : MoreFolders o (addVarNodeId name o) := by
  unfold addVarNodeId
  split_ifs
  · exact MoreFolders.refl o
  · exact getFolderNodeId_more _ o

theorem mem_addVarName {q : Request} {o : OpcServer} {t : Name} :
    t ∈ (addVarName q o).vars.keys ↔ t = q.name ∨ t ∈ o.vars.keys := KeyedMap.mem_insert_keys

section
variable {o : OpcServer} {q : Request} {beyond : Name → NumericU}

theorem addVar_of_refused (h : q.name ∈ o.vars.keys ∨ DblSlash q.name) : addVar beyond o q = o :=
  if_pos h

theorem addVar_touches (h : ¬ (q.name ∈ o.vars.keys ∨ DblSlash q.name)) :
    OpcServer.Touches {q.name} (addVarNodeId q.name (addVarName q o)) (addVar beyond o q) := by
  rw [addVar, if_neg h]
  exact OpcServer.writeNumber_touches _ _ _ _

theorem addVar_wrStatus : (addVar beyond o q).wrStatus = o.wrStatus := by
  by_cases h : q.name ∈ o.vars.keys ∨ DblSlash q.name
  · rw [addVar_of_refused h]
  · rw [(addVar_touches h).wrStatus, (addVarNodeId_more _ _).wrStatus]
    rfl

/-- The names of the server after the given calls. -/
structure Named (Q : List Request) (o : OpcServer) : Prop where
  names : ∀ t ∈ o.vars.keys, Folder t ∨ ¬ DblSlash t ∧ ∃ q ∈ Q, q.name = t
  added : ∀ q ∈ Q, ¬ DblSlash q.name → q.name ∈ o.vars.keys

theorem Named.addVar {Q : List Request} (h : Named Q o) :
    Named (Q ++ [q]) (addVar beyond o q) := by
  have hold : ∀ t ∈ o.vars.keys, Folder t ∨ ¬ DblSlash t ∧ ∃ r ∈ Q ++ [q], r.name = t := by
    intro t ht
    refine (h.names t ht).imp_right fun ⟨hd, r, hr, hrt⟩ => ⟨hd, r, ?_, hrt⟩
    exact List.mem_append_left _ hr
  by_cases href : q.name ∈ o.vars.keys ∨ DblSlash q.name
  · rw [addVar_of_refused href]
    refine ⟨hold, fun r hr hd => ?_⟩
    rcases List.mem_append.mp hr with hr | hr
    · exact h.added r hr hd
    · obtain rfl := List.mem_singleton.mp hr
      exact href.resolve_right hd
  have hmore := addVarNodeId_more q.name (addVarName q o)
  refine ⟨fun t ht => ?_, fun r hr hd => ?_⟩
  · rw [(addVar_touches href).keys] at ht
    by_cases ht₁ : t ∈ (addVarName q o).vars.keys
    · rcases mem_addVarName.mp ht₁ with rfl | ht₀
      · exact Or.inr ⟨(not_or.mp href).2, q, List.mem_append_right _ (List.mem_singleton_self q), rfl⟩
      · exact hold t ht₀
    · exact Or.inl (hmore.new t ht ht₁).1
  · rw [(addVar_touches href).keys]
    refine (hmore.old _ (mem_addVarName.mpr ?_)).1
    rcases List.mem_append.mp hr with hr | hr
    · exact Or.inr (h.added r hr hd)
    · exact Or.inl (congrArg Request.name (List.mem_singleton.mp hr))

/-- A variable is good exactly if the server takes writes to it. -/
def Written (o : OpcServer) : Prop :=
  ∀ t, o.isVariable t = true → ((o.vars.val t).uaStatus = statusGood ↔ o.wrStatus t = statusGood)

theorem writeVariable_good (a : StatusCode) (x : NumericU) (b : Bool) (v : UaVar) :
    (OpcServer.writeVariable a x b v).uaStatus = statusGood ↔ b = true ∧ a = statusGood := by
  cases b <;> simp [OpcServer.writeVariable, statusGood, badNotConnected]

theorem Written.addVar (h : Written o) : Written (addVar beyond o q) := by
  by_cases href : q.name ∈ o.vars.keys ∨ DblSlash q.name
  · rwa [addVar_of_refused href]
  have hmore := addVarNodeId_more q.name (addVarName q o)
  have htouch : OpcServer.Touches {q.name} _ (OpcRegs.addVar beyond o q) := addVar_touches href
  intro t ht
  rw [htouch.isVariable] at ht
  rw [addVar_wrStatus]
  have hkey := OpcServer.mem_keys_of_isVariable ht
  by_cases htq : t = q.name
  · subst htq
    rw [OpcRegs.addVar, if_neg href, OpcServer.writeNumber, if_pos ht]
    dsimp only
    rw [OpcServer.modifyVar_val_self, writeVariable_good, hmore.wrStatus]
    exact and_iff_right rfl
  rw [htouch.others t htq]
  by_cases ht₁ : t ∈ (addVarName q o).vars.keys
  · -- an old variable is still what it was
    have ht₀ := (mem_addVarName.mp ht₁).resolve_left htq
    have hval : (addVarNodeId q.name (addVarName q o)).vars.val t = o.vars.val t :=
      (hmore.old t ht₁).2.trans (KeyedMap.insert_val_of_ne _ htq _)
    rw [hval]
    refine h t ?_
    simp only [OpcServer.isVariable, hkey, ht₀, hval] at ht ⊢
    exact ht
  · simp [OpcServer.isVariable, (hmore.new t hkey ht₁).2] at ht

end

theorem addVars_named (beyond : Name → NumericU) (qs : List Request) {Q : List Request}
    {o : OpcServer} (h : Named Q o) : Named (Q ++ qs) (qs.foldl (addVar beyond) o) := by
  induction qs generalizing Q o with
  | nil => simpa using h
  | cons q qs ih => simpa using ih h.addVar

variable {wrStatus : Name → StatusCode} {beyond : Name → NumericU} {c : Config} {g : Gateway}

theorem initAll_cases (h : initAll wrStatus beyond c = some g) :
    ∃ P R, cfgMaster c = some (P, R) ∧ g.plcs = P.vec ∧ g.regmap = R.map Entry.toRegC ∧
      g.opcs = opcRegsInit beyond g.regmap ⟨.empty fun _ => { uaType := .uint16 }, wrStatus⟩ := by
  obtain ⟨⟨P, R⟩, hr, rfl⟩ := Option.map_eq_some_iff.mp h
  exact ⟨P, R, hr, rfl, rfl, rfl⟩

theorem initAll_named (h : initAll wrStatus beyond c = some g) :
    Named (allRequests g.regmap) g.opcs := by
  obtain ⟨P, R, -, -, -, hopcs⟩ := initAll_cases h
  rw [hopcs]
  exact addVars_named beyond _ (Q := [])
    ⟨fun _ ht => absurd ht List.not_mem_nil, fun _ hq => absurd hq List.not_mem_nil⟩

theorem initAll_written (h : initAll wrStatus beyond c = some g) : Written g.opcs := by
  obtain ⟨P, R, -, -, -, hopcs⟩ := initAll_cases h
  rw [hopcs]
  refine List.foldlRecOn (motive := Written) _ _ (fun t ht => ?_) fun o ho q _ => ho.addVar
  simp [OpcServer.isVariable, KeyedMap.empty] at ht

def accepts : Name → StatusCode := fun _ => statusGood

def zeroes : Name → NumericU := fun _ => {}

/-- What a configuration is loaded as over a server that accepts everything. -/
def gatewayOf (c : Config) (h : (initAll accepts zeroes c).isSome = true) : Gateway :=
  (initAll accepts zeroes c).get h

theorem gatewayOf_loads (c : Config) (h : (initAll accepts zeroes c).isSome = true) :
    initAll accepts zeroes c = some (gatewayOf c h) := (Option.some_get h).symm

end RwModbus.OpcRegs
