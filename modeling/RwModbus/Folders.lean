import RwModbus.PathSlashes

/-!
# The folders above the variables

`AddVar` with the node ids that `OpcRegs` leaves out: the id and the parent that
`vars` keeps for a name, and the nodes that the server was asked to create, in order.
The server is taken to create every node under the id it is asked for.
-/
namespace RwModbus.Folders
open Numeric Registers Loader Opc OpcRegs Separators

inductive NodeId where
  | objects
  | str (s : Name)
deriving DecidableEq, Repr

/-- A call of `UA_Server_addObjectNode` or `UA_Server_addVariableNode`. -/
structure Node where
  id : NodeId
  parent : NodeId
  isVar : Bool
deriving DecidableEq, Repr

/-- `OpcServer_c` with the members `node_id.var` and `node_id.parent` of its `vars`;
`nodes` is ghost data. -/
structure Tree where
  opcs : OpcServer
  var : Name → NodeId
  parent : Name → NodeId
  nodes : List Node

def addFolderToParent (path : Name) (parentNodeId : NodeId) (T : Tree) : Tree × NodeId :=
  ({ T with
    opcs := OpcRegs.addFolderToParent path T.opcs
    var := Function.update T.var path (.str path)
    nodes := T.nodes ++ [⟨.str path, parentNodeId, false⟩] }, .str path)

/-- The body of the loop in `get_FolderNodeId`, with `parentNode` beside the server. -/
def folderAt (path : Name) (r : Tree × NodeId) (i : ℕ) : Tree × NodeId :=
  let folder := getPathByLevel path (i + 1)
  if folder ∈ r.1.opcs.vars.keys then (r.1, r.1.var folder) else addFolderToParent folder r.2 r.1

def getFolderNodeId (path : Name) (T : Tree) : Tree × NodeId :=
  if path ∈ T.opcs.vars.keys then (T, T.var path)
  else (List.range (path.count '/' - 1)).foldl (folderAt path) (T, .objects)

def addVarName (q : Request) (T : Tree) : Tree := { T with opcs := OpcRegs.addVarName q T.opcs }

def addVarNodeId (name : Name) (T : Tree) : Tree :=
  let T := { T with var := Function.update T.var name (.str name) }
  let r := if getPathName name = ['/'] then (T, .objects) else getFolderNodeId (getPathName name) T
  { r.1 with parent := Function.update r.1.parent name r.2 }

def addVariable (name : Name) (T : Tree) : Tree :=
  { T with nodes := T.nodes ++ [⟨T.var name, T.parent name, true⟩] }

def writeNumber (s : Name) (x : NumericU) (isOK : Bool) (T : Tree) : Tree :=
  { T with opcs := (T.opcs.writeNumber s x isOK).1 }

/-- A call of `AddVar`; there is no type if `ua_types_map` lacks the argument's. -/
structure Call where
  name : Name
  uaType : Option UaType
  value : NumericU
deriving DecidableEq, Repr

def Call.request (c : Call) (t : UaType) : Request := ⟨c.name, t, c.value⟩

def addVar (beyond : Name → NumericU) (T : Tree) (c : Call) : Tree :=
  match c.uaType with
  | none => T
  | some t =>
      if c.name ∈ T.opcs.vars.keys ∨ DblSlash c.name then T
      else
        writeNumber c.name (c.value.overlay t.words (beyond c.name)) true
          (addVariable c.name (addVarNodeId c.name (addVarName (c.request t) T)))

/-- A server without variables. -/
def noVars (wrStatus : Name → StatusCode) : Tree where
  opcs := ⟨.empty fun _ => { uaType := .uint16 }, wrStatus⟩
  var := fun _ => .objects
  parent := fun _ => .objects
  nodes := []

def addVars (wrStatus : Name → StatusCode) (beyond : Name → NumericU) (cs : List Call) : Tree :=
  cs.foldl (addVar beyond) (noVars wrStatus)

theorem folderAt_opcs (path : Name) (is : List ℕ) (r : Tree × NodeId) :
    (is.foldl (folderAt path) r).1.opcs = is.foldl (fun o i =>
      let folder := getPathByLevel path (i + 1)
      if folder ∈ o.vars.keys then o else OpcRegs.addFolderToParent folder o) r.1.opcs := by
  induction is generalizing r with
  | nil => rfl
  | cons i is ih =>
      rw [List.foldl_cons, ih, List.foldl_cons, folderAt]
      dsimp only
      split_ifs <;> rfl

theorem getFolderNodeId_opcs (path : Name) (T : Tree) :
    (getFolderNodeId path T).1.opcs = OpcRegs.getFolderNodeId path T.opcs := by
  unfold getFolderNodeId OpcRegs.getFolderNodeId
  split_ifs
  · rfl
  · exact folderAt_opcs path _ (T, .objects)

theorem addVarNodeId_opcs (name : Name) (T : Tree) :
    (addVarNodeId name T).opcs = OpcRegs.addVarNodeId name T.opcs := by
  unfold addVarNodeId OpcRegs.addVarNodeId
  dsimp only
  split_ifs
  · rfl
  · exact getFolderNodeId_opcs _ _

/-- What `AddVar` does to `vars` does not depend on the ids. -/
theorem addVar_opcs (beyond : Name → NumericU) (T : Tree) (c : Call) (t : UaType)
    (ht : c.uaType = some t) :
    (addVar beyond T c).opcs = OpcRegs.addVar beyond T.opcs (c.request t) := by
  by_cases href : c.name ∈ T.opcs.vars.keys ∨ DblSlash c.name
  · rw [addVar_of_refused href, addVar, ht]
    exact congrArg Tree.opcs (if_pos href)
  · have hreq : ¬ ((c.request t).name ∈ T.opcs.vars.keys ∨ DblSlash (c.request t).name) := href
    rw [OpcRegs.addVar, if_neg hreq, addVar, ht]
    dsimp only
    rw [if_neg href, writeNumber, addVariable, addVarNodeId_opcs]
    rfl

/-- Components as they stand between single slashes. -/
def Proper (cs : List Name) : Prop := ∀ c ∈ cs, c ≠ [] ∧ '/' ∉ c

/-- `/c1/.../cn/`. -/
def folderPath (cs : List Name) : Name := joined '/' cs ++ ['/']

/-- The node of the folder; the Objects folder stands above all others. -/
def folderNode (cs : List Name) : NodeId := if cs = [] then .objects else .str (folderPath cs)

theorem Proper.take {cs : List Name} (h : Proper cs) (k : ℕ) : Proper (cs.take k) :=
  fun c hc => h c (List.mem_of_mem_take hc)

theorem folderPath_injective {cs ds : List Name} (hc : Proper cs) (hd : Proper ds)
    (h : folderPath cs = folderPath ds) : cs = ds :=
  joined_injective (fun c hx => (hc c hx).2) (fun c hx => (hd c hx).2) (List.append_cancel_right h)

@[simp] theorem folderPath_getLast? (cs : List Name) : (folderPath cs).getLast? = some '/' := by
  simp [folderPath]

theorem count_joined {cs : List Name} (h : Proper cs) : (joined '/' cs).count '/' = cs.length := by
  induction cs with
  | nil => rfl
  | cons c cs ih =>
      have hc := List.count_eq_zero.mpr (h c List.mem_cons_self).2
      have hcs := ih fun d hd => h d (List.mem_cons_of_mem c hd)
      simp [hc, hcs]

/-- A name that the server takes has proper components above it. -/
theorem getPathName_eq {name : Name} (hlast : name.getLast? ≠ some '/') (hd : ¬ DblSlash name) :
    ∃ cs, Proper cs ∧ getPathName name = folderPath cs := by
  unfold getPathName
  by_cases hslash : '/' ∉ name
  · exact ⟨[], fun c hc => absurd hc List.not_mem_nil, if_pos hslash⟩
  rw [if_neg hslash, if_neg hlast]
  -- the name behind a slash, which it may lack at its start
  obtain ⟨s, hs, hpairs⟩ : ∃ s, (if name.head? = some '/' then name else '/' :: name) = '/' :: s ∧
      pairs '/' ('/' :: s) = 0 := by
    rw [not_dblSlash_iff] at hd
    by_cases hhead : name.head? = some '/'
    · obtain ⟨s, rfl⟩ := List.head?_eq_some_iff.mp hhead
      exact ⟨s, if_pos hhead, hd⟩
    · exact ⟨name, if_neg hhead, by rw [pairs, if_neg fun h => hhead h.2, hd]⟩
  obtain ⟨cs, b, hjoin, hfree⟩ := exists_joined '/' s
  refine ⟨cs, fun c hc => ⟨?_, hfree c (List.mem_append_left _ hc)⟩, ?_⟩
  · rw [hjoin] at hpairs
    exact ne_nil_of_pairs hpairs c hc
  · have hb : ∀ c ∈ b.reverse, decide (c ≠ '/') = true := by
      intro c hc
      have hnot := hfree b (List.mem_append_right cs (List.mem_singleton_self b))
      simpa using fun heq : c = '/' => hnot (heq ▸ List.mem_reverse.mp hc)
    rw [hs, hjoin, List.rdropWhile, folderPath]
    simp only [joined_append, joined_cons, joined_nil, List.append_nil, List.reverse_append,
      List.reverse_cons, List.append_assoc]
    rw [List.dropWhile_append_of_pos hb]
    simp

theorem idxOf_append_folderPath {x : Name} (h : '/' ∉ x) (cs : List Name) :
    (x ++ folderPath cs).idxOf '/' = x.length := by
  rw [List.idxOf_append_of_notMem h]
  cases cs <;> simp [folderPath]

theorem folderPath_split {cs : List Name} {k : ℕ} (hk : k < cs.length) : folderPath cs =
    joined '/' (cs.take k) ++ '/' :: (cs[k] ++ folderPath (cs.drop (k + 1))) := by
  rw [folderPath, joined_split '/' hk]
  simp [folderPath]

/-- The index that `get_PathByLevel` reaches. -/
theorem levelIndex_eq {cs : List Name} (h : Proper cs) {k : ℕ} (hk : k ≤ cs.length) :
    (List.range k).foldl
      (fun index _ => index + 1 + ((folderPath cs).tail.drop (index + 1)).idxOf '/') 0 =
    (joined '/' (cs.take k)).length - 1 := by
  induction k with
  | zero => rfl
  | succ k ih =>
      obtain ⟨hne, hfree⟩ := h cs[k] (List.getElem_mem hk)
      rw [List.range_succ, List.foldl_append, ih (by omega), List.foldl_cons, List.foldl_nil,
        ← List.take_append_getElem hk, joined_append, folderPath_split hk]
      cases htake : joined '/' (cs.take k) with
      | nil =>
          -- the search starts one character into the first component
          obtain ⟨c, x, hx⟩ := List.exists_cons_of_ne_nil hne
          rw [hx, List.mem_cons, not_or] at hfree
          have hidx := idxOf_append_folderPath hfree.2 (cs.drop (k + 1))
          simp [hx, hidx, add_comm]
      | cons c A =>
          have hidx := idxOf_append_folderPath hfree (cs.drop (k + 1))
          have hdrop : A.drop (A.length + 1) = [] := List.drop_eq_nil_of_le (Nat.le_succ _)
          simp [List.drop_append, hdrop, hidx, add_assoc, add_comm]

theorem getPathByLevel_eq {cs : List Name} (h : Proper cs) {k : ℕ} (hk : k < cs.length) :
    getPathByLevel (folderPath cs) (k + 1) = folderPath (cs.take (k + 1)) := by
  have hsplit : folderPath cs = joined '/' (cs.take (k + 1)) ++ folderPath (cs.drop (k + 1)) := by
    rw [folderPath_split hk, List.take_succ_eq_append_getElem hk, joined_append]
    simp
  obtain ⟨s, hs⟩ : ∃ s, joined '/' (cs.take (k + 1)) = '/' :: s := by
    cases cs with
    | nil => simp at hk
    | cons c cs => exact ⟨_, rfl⟩
  have hindex := levelIndex_eq h hk
  rw [hs, hsplit] at hindex
  rw [getPathByLevel, hsplit, hindex, hs]
  simp [folderPath, hs]

/-- The calls that asked for this name. -/
def created (t : Name) (T : Tree) : List Node := T.nodes.filter fun n => n.id = .str t

/-- What `vars` and the server hold for a folder. -/
structure FolderOk (T : Tree) (cs : List Name) : Prop where
  isVar : (T.opcs.vars.val (folderPath cs)).isVar = false
  var : T.var (folderPath cs) = .str (folderPath cs)
  above : cs.dropLast ≠ [] → folderPath cs.dropLast ∈ T.opcs.vars.keys
  once : created (folderPath cs) T = [⟨.str (folderPath cs), folderNode cs.dropLast, false⟩]

/-- The keys that end in a slash are folders below folders, created once. -/
structure FoldersOk (T : Tree) : Prop where
  folder : ∀ cs, Proper cs → cs ≠ [] → folderPath cs ∈ T.opcs.vars.keys → FolderOk T cs
  slashed : ∀ t ∈ T.opcs.vars.keys, t.getLast? = some '/' →
    ∃ cs, Proper cs ∧ cs ≠ [] ∧ t = folderPath cs
  fresh : ∀ t, t.getLast? = some '/' → t ∉ T.opcs.vars.keys → created t T = []

/-- The second server is the first with more folders. -/
structure Grown (T T' : Tree) : Prop where
  old : ∀ t ∈ T.opcs.vars.keys, t ∈ T'.opcs.vars.keys
  new : ∀ t ∈ T'.opcs.vars.keys, t ∉ T.opcs.vars.keys → t.getLast? = some '/'
  var : ∀ t, t.getLast? ≠ some '/' → T'.var t = T.var t
  parent : T'.parent = T.parent
  created : ∀ t, t.getLast? ≠ some '/' → created t T' = created t T

theorem Grown.refl (T : Tree) : Grown T T :=
  ⟨fun _ h => h, fun _ h hn => absurd h hn, fun _ _ => rfl, rfl, fun _ _ => rfl⟩

theorem Grown.trans {T₁ T₂ T₃ : Tree} (h : Grown T₁ T₂) (h' : Grown T₂ T₃) : Grown T₁ T₃ := by
  refine ⟨fun t ht => h'.old t (h.old t ht), fun t ht hn => ?_,
    fun t ht => (h'.var t ht).trans (h.var t ht), h'.parent.trans h.parent,
    fun t ht => (h'.created t ht).trans (h.created t ht)⟩
  by_cases hmid : t ∈ T₂.opcs.vars.keys
  · exact h.new t hmid hn
  · exact h'.new t ht hmid

section
variable {T : Tree} {cs : List Name}

theorem created_append (t : Name) (T : Tree) (n : Node) : created t { T with nodes := T.nodes ++ [n] } =
    created t T ++ if n.id = .str t then [n] else [] := by
  rw [created, List.filter_append, List.filter_singleton]
  simp [created]

theorem mem_addFolder {t path : Name} {id : NodeId} :
    t ∈ (addFolderToParent path id T).1.opcs.vars.keys ↔ t = path ∨ t ∈ T.opcs.vars.keys :=
  KeyedMap.mem_insert_keys

theorem created_addFolder (t path : Name) (id : NodeId) (T : Tree) :
    created t (addFolderToParent path id T).1 =
      created t T ++ if path = t then [⟨.str path, id, false⟩] else [] := by
  have h := created_append t T ⟨.str path, id, false⟩
  simp only [NodeId.str.injEq] at h
  exact h

theorem addFolder_grown (id : NodeId) (T : Tree) :
    Grown T (addFolderToParent (folderPath cs) id T).1 := by
  have hne : ∀ t : Name, t.getLast? ≠ some '/' → t ≠ folderPath cs := by
    rintro _ ht rfl
    exact ht (folderPath_getLast? cs)
  refine ⟨fun t ht => mem_addFolder.mpr (Or.inr ht), fun t ht hn => ?_, fun t ht => ?_, rfl,
    fun t ht => ?_⟩
  · rw [(mem_addFolder.mp ht).resolve_right hn, folderPath_getLast?]
  · exact Function.update_of_ne (hne t ht) _ _
  · rw [created_addFolder, if_neg (hne t ht).symm, List.append_nil]

/-- A missing folder is created below the one above it. -/
theorem FoldersOk.addFolder (h : FoldersOk T) (hcs : Proper cs) (hne : cs ≠ [])
    (hmiss : folderPath cs ∉ T.opcs.vars.keys)
    (habove : cs.dropLast ≠ [] → folderPath cs.dropLast ∈ T.opcs.vars.keys) :
    FoldersOk (addFolderToParent (folderPath cs) (folderNode cs.dropLast) T).1 := by
  refine ⟨fun ds hds hdne hmem => ?_, fun t ht hlast => ?_, fun t hlast ht => ?_⟩
  · by_cases heq : ds = cs
    · subst heq
      refine ⟨?_, Function.update_self _ _ _, fun hn => mem_addFolder.mpr (Or.inr (habove hn)), ?_⟩
      · simp [addFolderToParent, OpcRegs.addFolderToParent, folderVar]
      · rw [created_addFolder, if_pos rfl, h.fresh _ (folderPath_getLast? ds) hmiss]
        rfl
    · have hpath : folderPath ds ≠ folderPath cs := fun hp => heq (folderPath_injective hds hcs hp)
      obtain ⟨hvar, hid, hup, honce⟩ :=
        h.folder ds hds hdne ((mem_addFolder.mp hmem).resolve_left hpath)
      refine ⟨?_, (Function.update_of_ne hpath _ _).trans hid,
        fun hn => mem_addFolder.mpr (Or.inr (hup hn)), ?_⟩
      · rw [addFolderToParent, OpcRegs.addFolderToParent]
        dsimp only
        rw [KeyedMap.insert_val_of_ne _ hpath, hvar]
      · rw [created_addFolder, if_neg hpath.symm, List.append_nil, honce]
  · rcases mem_addFolder.mp ht with rfl | ht
    · exact ⟨cs, hcs, hne, rfl⟩
    · exact h.slashed t ht hlast
  · rw [mem_addFolder, not_or] at ht
    rw [created_addFolder, if_neg (Ne.symm ht.1), List.append_nil, h.fresh t hlast ht.2]

/-- The loop of `get_FolderNodeId` after `k` rounds: it has the node of the folder at this
level, and that folder exists. -/
structure AtLevel (T : Tree) (cs : List Name) (k : ℕ) (r : Tree × NodeId) : Prop where
  ok : FoldersOk r.1
  grown : Grown T r.1
  node : r.2 = folderNode (cs.take k)
  folder : cs.take k ≠ [] → folderPath (cs.take k) ∈ r.1.opcs.vars.keys

theorem AtLevel.next {k : ℕ} {r : Tree × NodeId} (h : AtLevel T cs k r) (hcs : Proper cs)
    (hk : k < cs.length) : AtLevel T cs (k + 1) (folderAt (folderPath cs) r k) := by
  have hproper := hcs.take (k + 1)
  have hne : cs.take (k + 1) ≠ [] := by
    simpa using List.ne_nil_of_length_pos (Nat.zero_lt_of_lt hk)
  have hdrop : (cs.take (k + 1)).dropLast = cs.take k := by
    rw [List.take_succ_eq_append_getElem hk, List.dropLast_concat]
  unfold folderAt
  rw [getPathByLevel_eq hcs hk]
  dsimp only
  split_ifs with hmem
  · refine ⟨h.ok, h.grown, ?_, fun _ => hmem⟩
    rw [(h.ok.folder _ hproper hne hmem).var, folderNode, if_neg hne]
  · have hadd := h.ok.addFolder hproper hne hmem (by rw [hdrop]; exact h.folder)
    rw [hdrop, ← h.node] at hadd
    refine ⟨hadd, h.grown.trans (addFolder_grown r.2 r.1), ?_,
      fun _ => mem_addFolder.mpr (Or.inl rfl)⟩
    rw [folderNode, if_neg hne]
    rfl

theorem getFolderNodeId_spec (h : FoldersOk T) (hcs : Proper cs) (hne : cs ≠ []) :
    FoldersOk (getFolderNodeId (folderPath cs) T).1 ∧
    Grown T (getFolderNodeId (folderPath cs) T).1 ∧
    (getFolderNodeId (folderPath cs) T).2 = folderNode cs ∧
    folderPath cs ∈ (getFolderNodeId (folderPath cs) T).1.opcs.vars.keys := by
  unfold getFolderNodeId
  split_ifs with hmem
  · refine ⟨h, Grown.refl T, ?_, hmem⟩
    rw [(h.folder cs hcs hne hmem).var, folderNode, if_neg hne]
  · have hloop : ∀ k ≤ cs.length,
        AtLevel T cs k ((List.range k).foldl (folderAt (folderPath cs)) (T, .objects)) := by
      intro k hk
      induction k with
      | zero => exact ⟨h, Grown.refl T, rfl, fun hn => absurd rfl hn⟩
      | succ k ih =>
          rw [List.range_succ, List.foldl_append]
          exact (ih (by omega)).next hcs hk
    have hcount : (folderPath cs).count '/' - 1 = cs.length := by
      simp [folderPath, count_joined hcs]
    obtain ⟨hok, hgrown, hnode, hfolder⟩ := hloop cs.length le_rfl
    rw [List.take_length] at hnode hfolder
    rw [hcount]
    exact ⟨hok, hgrown, hnode, hfolder hne⟩

end

/-- Nothing that concerns folders differs. -/
structure SameFolders (T T' : Tree) : Prop where
  keys : ∀ t, t.getLast? = some '/' → (t ∈ T'.opcs.vars.keys ↔ t ∈ T.opcs.vars.keys)
  isVar : ∀ t, t.getLast? = some '/' → (T'.opcs.vars.val t).isVar = (T.opcs.vars.val t).isVar
  var : ∀ t, t.getLast? = some '/' → T'.var t = T.var t
  created : ∀ t, t.getLast? = some '/' → created t T' = created t T

theorem FoldersOk.of_same {T T' : Tree} (h : FoldersOk T) (hs : SameFolders T T') : FoldersOk T' := by
  refine ⟨fun cs hcs hne hmem => ?_, fun t ht hlast => ?_, fun t hlast ht => ?_⟩
  · have hlast := folderPath_getLast? cs
    obtain ⟨hvar, hid, hup, honce⟩ := h.folder cs hcs hne ((hs.keys _ hlast).mp hmem)
    refine ⟨(hs.isVar _ hlast).trans hvar, (hs.var _ hlast).trans hid, fun hn => ?_,
      (hs.created _ hlast).trans honce⟩
    exact (hs.keys _ (folderPath_getLast? _)).mpr (hup hn)
  · exact h.slashed t ((hs.keys t hlast).mp ht) hlast
  · exact (hs.created t hlast).trans (h.fresh t hlast fun hm => ht ((hs.keys t hlast).mpr hm))

/-- What `AddVar` does with a name that it takes, in a folder of the components `cs`. -/
structure Added (name : Name) (cs : List Name) (T T' : Tree) : Prop where
  ok : FoldersOk T'
  folder : cs ≠ [] → folderPath cs ∈ T'.opcs.vars.keys
  old : ∀ t, t = name ∨ t ∈ T.opcs.vars.keys → t ∈ T'.opcs.vars.keys
  new : ∀ t ∈ T'.opcs.vars.keys, t.getLast? ≠ some '/' → t = name ∨ t ∈ T.opcs.vars.keys
  parent : T'.parent = Function.update T.parent name (folderNode cs)
  created : ∀ t, t.getLast? ≠ some '/' →
    created t T' = created t T ++ if name = t then [⟨.str name, folderNode cs, true⟩] else []

section
variable {T : Tree} {name : Name} {cs : List Name}

/-- The server when the variable has its entry in `vars` and its own id. -/
def named (q : Request) (T : Tree) : Tree :=
  { addVarName q T with var := Function.update T.var q.name (.str q.name) }

theorem named_same {q : Request} (hlast : q.name.getLast? ≠ some '/') (T : Tree) :
    SameFolders T (named q T) := by
  have hne : ∀ t : Name, t.getLast? = some '/' → t ≠ q.name := by
    rintro t ht rfl
    exact hlast ht
  refine ⟨fun t ht => ?_, fun t ht => ?_, fun t ht => Function.update_of_ne (hne t ht) _ _,
    fun _ _ => rfl⟩
  · exact KeyedMap.mem_insert_keys.trans (or_iff_right (hne t ht))
  · exact congrArg UaVar.isVar (KeyedMap.insert_val_of_ne _ (hne t ht) _)

/-- The parent of a variable, with the folders that had to be created for it. -/
def parentOf (name : Name) (T : Tree) : Tree × NodeId :=
  if getPathName name = ['/'] then (T, .objects) else getFolderNodeId (getPathName name) T

theorem parentOf_spec (h : FoldersOk T) (hcs : Proper cs) (hpath : getPathName name = folderPath cs) :
    FoldersOk (parentOf name T).1 ∧ Grown T (parentOf name T).1 ∧
    (parentOf name T).2 = folderNode cs ∧
    (cs ≠ [] → folderPath cs ∈ (parentOf name T).1.opcs.vars.keys) := by
  unfold parentOf
  rw [hpath]
  by_cases hne : cs = []
  · subst hne
    exact ⟨h, Grown.refl T, rfl, fun hn => absurd rfl hn⟩
  · have htop : folderPath cs ≠ ['/'] := fun heq =>
      hne (folderPath_injective hcs (fun c hc => absurd hc List.not_mem_nil) heq)
    rw [if_neg htop]
    obtain ⟨hok, hgrown, hnode, hmem⟩ := getFolderNodeId_spec h hcs hne
    exact ⟨hok, hgrown, hnode, fun _ => hmem⟩

/-- The last two steps of `AddVar`. -/
def finished (name : Name) (x : NumericU) (r : Tree × NodeId) : Tree :=
  writeNumber name x true
    (addVariable name { r.1 with parent := Function.update r.1.parent name r.2 })

theorem finished_touches (name : Name) (x : NumericU) (r : Tree × NodeId) :
    OpcServer.Touches {name} r.1.opcs (finished name x r).opcs :=
  OpcServer.writeNumber_touches name x true r.1.opcs

theorem created_finished (t : Name) (x : NumericU) {r : Tree × NodeId}
    (hvar : r.1.var name = .str name) : created t (finished name x r) =
      created t r.1 ++ if name = t then [⟨.str name, r.2, true⟩] else [] := by
  have h := created_append t r.1 ⟨r.1.var name, Function.update r.1.parent name r.2 name, true⟩
  rw [Function.update_self, hvar] at h
  simp only [NodeId.str.injEq] at h
  rw [← h, ← hvar]
  simp [finished, writeNumber, addVariable, created]

theorem finished_same (hlast : name.getLast? ≠ some '/') (x : NumericU) {r : Tree × NodeId}
    (hvar : r.1.var name = .str name) : SameFolders r.1 (finished name x r) := by
  have htouch := finished_touches name x r
  refine ⟨fun t _ => by rw [htouch.keys], fun t _ => htouch.isVar t, fun _ _ => rfl, fun t ht => ?_⟩
  have hne : name ≠ t := fun heq => hlast (heq ▸ ht)
  rw [created_finished t x hvar, if_neg hne, List.append_nil]

theorem addVar_added {c : Call} {t : UaType} (ht : c.uaType = some t) (h : FoldersOk T)
    (hlast : c.name.getLast? ≠ some '/') (hcs : Proper cs)
    (hpath : getPathName c.name = folderPath cs)
    (href : ¬ (c.name ∈ T.opcs.vars.keys ∨ DblSlash c.name)) (beyond : Name → NumericU) :
    Added c.name cs T (addVar beyond T c) := by
  obtain ⟨hok, hgrown, hnode, hfolder⟩ :=
    parentOf_spec (h.of_same (named_same (q := c.request t) hlast T)) hcs hpath
  generalize hr : parentOf c.name (named (c.request t) T) = r at hok hgrown hnode hfolder
  have hvar : r.1.var c.name = .str c.name := by
    rw [hgrown.var _ hlast]
    exact Function.update_self _ _ _
  have heq : addVar beyond T c =
      finished c.name (c.value.overlay t.words (beyond c.name)) r := by
    rw [addVar, ht]
    dsimp only
    rw [if_neg href, ← hr]
    rfl
  have htouch := finished_touches c.name (c.value.overlay t.words (beyond c.name)) r
  have hkeys : ∀ s, s ∈ (named (c.request t) T).opcs.vars.keys ↔
      s = c.name ∨ s ∈ T.opcs.vars.keys := fun s => KeyedMap.mem_insert_keys
  rw [heq]
  refine ⟨hok.of_same (finished_same hlast _ hvar), fun hn => ?_, fun s hs => ?_,
    fun s hs hl => ?_, ?_, fun s hs => ?_⟩
  · rw [htouch.keys]
    exact hfolder hn
  · rw [htouch.keys]
    exact hgrown.old s ((hkeys s).mpr hs)
  · rw [htouch.keys] at hs
    by_contra hnew
    exact hl (hgrown.new s hs fun hm => hnew ((hkeys s).mp hm))
  · rw [← hnode]
    exact congrArg (Function.update · c.name r.2) hgrown.parent
  · rw [created_finished s _ hvar, hgrown.created s hs, hnode]
    rfl

end

/-- A variable, its parent and the folder it is in. -/
structure VarOk (T : Tree) (t : Name) (cs : List Name) : Prop where
  proper : Proper cs
  path : getPathName t = folderPath cs
  folder : cs ≠ [] → folderPath cs ∈ T.opcs.vars.keys
  parent : T.parent t = folderNode cs
  once : created t T = [⟨.str t, folderNode cs, true⟩]

/-- All folders and all variables are in place. -/
structure TreeOk (T : Tree) : Prop extends FoldersOk T where
  var : ∀ t ∈ T.opcs.vars.keys, t.getLast? ≠ some '/' → ∃ cs, VarOk T t cs
  unasked : ∀ t, t.getLast? ≠ some '/' → t ∉ T.opcs.vars.keys → created t T = []

theorem addVar_refused {T : Tree} {c : Call} (h : c.name ∈ T.opcs.vars.keys ∨ DblSlash c.name)
    (beyond : Name → NumericU) : addVar beyond T c = T := by
  unfold addVar
  cases c.uaType with
  | none => rfl
  | some t => exact if_pos h

theorem TreeOk.addVar {T : Tree} (h : TreeOk T) {c : Call} (hlast : c.name.getLast? ≠ some '/')
    (beyond : Name → NumericU) : TreeOk (addVar beyond T c) := by
  by_cases href : c.name ∈ T.opcs.vars.keys ∨ DblSlash c.name
  · rwa [addVar_refused href]
  cases ht : c.uaType with
  | none => rwa [Folders.addVar, ht]
  | some t =>
      rw [not_or] at href
      obtain ⟨cs, hcs, hpath⟩ := getPathName_eq hlast href.2
      have hadd := addVar_added ht h.toFoldersOk hlast hcs hpath (not_or.mpr href) beyond
      refine ⟨hadd.ok, fun s hs hl => ?_, fun s hl hs => ?_⟩
      · by_cases hname : s = c.name
        · subst hname
          refine ⟨cs, hcs, hpath, hadd.folder, ?_, ?_⟩
          · rw [hadd.parent, Function.update_self]
          · rw [hadd.created _ hl, h.unasked _ hl href.1, if_pos rfl, List.nil_append]
        · obtain ⟨ds, hds⟩ := h.var s ((hadd.new s hs hl).resolve_left hname) hl
          refine ⟨ds, hds.proper, hds.path, fun hn => hadd.old _ (Or.inr (hds.folder hn)), ?_, ?_⟩
          · rw [hadd.parent, Function.update_of_ne hname, hds.parent]
          · rw [hadd.created s hl, if_neg (Ne.symm hname), List.append_nil, hds.once]
      · have hold := not_or.mp fun hm => hs (hadd.old s hm)
        rw [hadd.created s hl, if_neg (Ne.symm hold.1), List.append_nil, h.unasked s hl hold.2]

theorem addVars_ok (wrStatus : Name → StatusCode) (beyond : Name → NumericU) {cs : List Call}
    (h : ∀ c ∈ cs, c.name.getLast? ≠ some '/') : TreeOk (addVars wrStatus beyond cs) := by
  refine List.foldlRecOn (motive := TreeOk) _ _ ?_ fun T hT c hc => hT.addVar (h c hc) beyond
  exact ⟨⟨fun _ _ _ hm => absurd hm List.not_mem_nil, fun _ hm => absurd hm List.not_mem_nil,
    fun _ _ _ => rfl⟩, fun _ hm => absurd hm List.not_mem_nil, fun _ _ _ => rfl⟩

/-- With a folder, all folders above it are there. -/
theorem FoldersOk.take {T : Tree} (h : FoldersOk T) {cs : List Name} (hcs : Proper cs)
    (hmem : folderPath cs ∈ T.opcs.vars.keys) {i : ℕ} (hi : 1 ≤ i) (hic : i ≤ cs.length) :
    folderPath (cs.take i) ∈ T.opcs.vars.keys ∧ FolderOk T (cs.take i) := by
  have hne : ∀ j, 1 ≤ j → j ≤ cs.length → cs.take j ≠ [] := by
    intro j hj hjc
    exact List.ne_nil_of_length_pos (by rw [List.length_take]; omega)
  have hup : folderPath (cs.take i) ∈ T.opcs.vars.keys := by
    induction hic using Nat.decreasingInduction with
    | self => rwa [List.take_length]
    | of_succ k hk ih =>
        have hfolder := h.folder _ (hcs.take (k + 1)) (hne (k + 1) (by omega) hk) (ih (by omega))
        have hdrop : (cs.take (k + 1)).dropLast = cs.take k := by
          rw [List.take_succ_eq_append_getElem hk, List.dropLast_concat]
        have habove := hfolder.above
        rw [hdrop] at habove
        exact habove (hne k hi (by omega))
  exact ⟨hup, h.folder _ (hcs.take i) (hne i hi hic) hup⟩

/-- A variable below its folders: folder `i` was created once, in folder `i - 1`, and the
variable in the last one. -/
structure InFolders (T : Tree) (t : Name) (cs : List Name) : Prop where
  proper : Proper cs
  path : getPathName t = folderPath cs
  parent : T.parent t = folderNode cs
  once : created t T = [⟨.str t, folderNode cs, true⟩]
  folders : ∀ i, 1 ≤ i → i ≤ cs.length →
    folderPath (cs.take i) ∈ T.opcs.vars.keys ∧
    (T.opcs.vars.val (folderPath (cs.take i))).isVar = false ∧
    created (folderPath (cs.take i)) T =
      [⟨.str (folderPath (cs.take i)), folderNode (cs.take (i - 1)), false⟩]

theorem VarOk.inFolders {T : Tree} (h : FoldersOk T) {t : Name} {cs : List Name}
    (hv : VarOk T t cs) : InFolders T t cs := by
  refine ⟨hv.proper, hv.path, hv.parent, hv.once, fun i hi hic => ?_⟩
  have hne : cs ≠ [] := List.ne_nil_of_length_pos (by omega)
  obtain ⟨hmem, hfolder⟩ := h.take hv.proper (hv.folder hne) hi hic
  have hdrop : (cs.take i).dropLast = cs.take (i - 1) := by
    rw [List.dropLast_eq_take, List.take_take, List.length_take]
    congr 1
    omega
  have honce := hfolder.once
  rw [hdrop] at honce
  exact ⟨hmem, hfolder.isVar, honce⟩

theorem FoldersOk.getLast?_ne {T : Tree} (h : FoldersOk T) {t : Name}
    (ht : T.opcs.isVariable t = true) : t.getLast? ≠ some '/' := by
  intro hlast
  have hmem := OpcServer.mem_keys_of_isVariable ht
  obtain ⟨cs, hcs, hne, rfl⟩ := h.slashed t hmem hlast
  simp [OpcServer.isVariable, (h.folder cs hcs hne hmem).isVar] at ht

/-- After any calls with names that do not end in a slash, every variable is below its
folders, and a name that exists or has a double slash changes nothing. -/
theorem addVars_inFolders (wrStatus : Name → StatusCode) (beyond : Name → NumericU)
    (cs : List Call) (h : ∀ c ∈ cs, c.name.getLast? ≠ some '/') :
    (∀ t, (addVars wrStatus beyond cs).opcs.isVariable t = true →
      ∃ ds, InFolders (addVars wrStatus beyond cs) t ds) ∧
    ∀ c, c.name ∈ (addVars wrStatus beyond cs).opcs.vars.keys ∨ DblSlash c.name →
      (addVar beyond (addVars wrStatus beyond cs) c).opcs.vars =
        (addVars wrStatus beyond cs).opcs.vars := by
  have hok := addVars_ok wrStatus beyond h
  constructor
  · intro t ht
    have hmem := OpcServer.mem_keys_of_isVariable ht
    obtain ⟨ds, hds⟩ := hok.var t hmem (hok.toFoldersOk.getLast?_ne ht)
    exact ⟨ds, hds.inFolders hok.toFoldersOk⟩
  · intro c hc
    rw [addVar_refused hc]

/-- `a/b/x` without a slash at its start, and then `/a/y`. -/
def twoCalls : List Call :=
  [⟨['a', '/', 'b', '/', 'x'], some .uint16, {}⟩, ⟨['/', 'a', '/', 'y'], some .float, {}⟩]

theorem addVars_inFolders_two :
    ∃ ds, InFolders (addVars accepts zeroes twoCalls) ['a', '/', 'b', '/', 'x'] ds :=
  (addVars_inFolders accepts zeroes twoCalls (by decide)).1 _ (by decide)

end RwModbus.Folders
