import RwModbus.Registers
import RwModbus.Library.Lines
import RwModbus.Library.FixedWidth

/-!
# Settings in files

`EzConfig` keeps a map of texts and saves it to a new file each time. The files of
one series share their names up to the local time of the save. A directory maps
the names of files to texts; whether the file system creates a file of a name in
the directory is a parameter.
-/
namespace RwModbus.Settings
open Registers

/-- The local time, as `strftime` prints it; the month is `tm_mon + 1`. -/
structure LocalTime where
  year : ℕ
  mon : ℕ
  mday : ℕ
  hour : ℕ
  min : ℕ
  sec : ℕ
  year_range : 1000 ≤ year ∧ year ≤ 9999 := by decide
  mon_range : 1 ≤ mon ∧ mon ≤ 12 := by decide
  mday_range : 1 ≤ mday ∧ mday ≤ 31 := by decide
  hour_range : hour ≤ 23 := by decide
  min_range : min ≤ 59 := by decide
  sec_range : sec ≤ 60 := by decide

/-- A number in `w` decimal digits. -/
def decimal (w n : ℕ) : Name := FixedWidth.digits 10 Nat.digitChar w n

/-- `timestamp`: `%Y%m%d_%H%M%S`. -/
def LocalTime.timestamp (t : LocalTime) : Name :=
  decimal 4 t.year ++ (decimal 2 t.mon ++ (decimal 2 t.mday ++ '_' ::
    (decimal 2 t.hour ++ (decimal 2 t.min ++ decimal 2 t.sec))))

structure Directory (creates : Name → Bool) where
  files : KeyedMap Name Name
  creatable : ∀ n ∈ files.keys, creates n = true

namespace Directory
variable {creates : Name → Bool}

/-- What a stream reads from the file; a file that is not there gives nothing. -/
def text (d : Directory creates) (n : Name) : Name := if n ∈ d.files.keys then d.files.val n else []

/-- `fs::remove`. -/
def remove (d : Directory creates) (n : Name) : Directory creates :=
  ⟨d.files.erase n, fun _ hj => d.creatable _ (KeyedMap.mem_erase_keys.mp hj).1⟩

/-- A file that can be created is replaced by the text. -/
def write (d : Directory creates) (n text : Name) : Directory creates :=
  if h : creates n = true then
    { files := d.files.insert n text
      creatable := by
        intro j hj
        obtain rfl | hj := KeyedMap.mem_insert_keys.mp hj
        · exact h
        · exact d.creatable j hj }
  else d

theorem mem_write_keys {d : Directory creates} {n j text : Name} :
    j ∈ (d.write n text).files.keys ↔ (j = n ∧ creates n = true) ∨ j ∈ d.files.keys := by
  unfold write
  split_ifs with h
  · simp [h]
  · simp [h]

theorem write_text (d : Directory creates) {n : Name} (h : creates n = true) (text : Name) :
    (d.write n text).text n = text := by
  have hmem : n ∈ (d.write n text).files.keys := mem_write_keys.mpr (.inl ⟨rfl, h⟩)
  rw [Directory.text, if_pos hmem, write, dif_pos h]
  exact KeyedMap.insert_val_self _ _ _

end Directory

structure EzConfig where
  prefix_ : Name
  maxFiles : ℕ
  maxFiles_range : 1 ≤ maxFiles ∧ maxFiles ≤ 10
  data : KeyedMap Name Name

/-- What a line of a file sets; empty lines, comments and lines without `=` set
nothing. -/
def parseLine (line : Name) : Option (Name × Name) :=
  if line = [] ∨ line.head? = some '#' then none
  else
    match line.dropWhile (· ≠ '=') with
    | [] => none
    | _ :: val => some (line.takeWhile (· ≠ '='), val)

/-- The map that `loadFrom` builds from the text of a file. -/
def readText (text : Name) : KeyedMap Name Name :=
  (KeyedMap.empty fun _ => []).insertAll ((Lines.lines '\n' text).filterMap parseLine)

/-- `key << '=' << val`. -/
def lineOf (e : Name × Name) : Name := e.1 ++ '=' :: e.2

/-- What `save` writes. -/
def fileText (data : KeyedMap Name Name) : Name := Lines.joined '\n' (data.entries.map lineOf)

namespace EzConfig
variable {creates : Name → Bool}

/-- The names of a directory come in the order of `std::sort`. -/
def listFiles (c : EzConfig) (d : Directory creates) : List Name :=
  d.files.keys.filter fun n => c.prefix_ <+: n

def loadFrom (c : EzConfig) (path : Name) (d : Directory creates) : EzConfig :=
  { c with data := readText (d.text path) }

/-- `files.back()`. -/
def latest (c : EzConfig) (d : Directory creates) : Option Name := (c.listFiles d).getLast?

def loadLatest (c : EzConfig) (d : Directory creates) : EzConfig :=
  match c.latest d with
  | some path => c.loadFrom path d
  | none => c

/-- The constructor. -/
def new (p : Name) (maxFiles : ℤ) (d : Directory creates) : EzConfig :=
  loadLatest
    { prefix_ := p
      maxFiles := (max 1 (min maxFiles 10)).toNat
      maxFiles_range := by omega
      data := KeyedMap.empty fun _ => [] } d

def set (c : EzConfig) (key val : Name) : EzConfig := { c with data := c.data.insert key val }

/-- The loop that removes the oldest files. -/
def rotate (maxFiles : ℕ) : List Name → Directory creates → Directory creates
  | [], d => d
  | file :: files, d =>
      if maxFiles ≤ (file :: files).length then rotate maxFiles files (d.remove file) else d

/-- `prefix_ + "_" + timestamp() + ".ini"`. -/
def fileName (p : Name) (t : LocalTime) : Name := p ++ '_' :: (t.timestamp ++ ".ini".toList)

def save (c : EzConfig) (t : LocalTime) (d : Directory creates) : Directory creates :=
  (rotate c.maxFiles (c.listFiles d) d).write (fileName c.prefix_ t) (fileText c.data)

end EzConfig

/-- The entry survives on a line of its own. -/
structure Storable (e : Name × Name) : Prop where
  noEquals : '=' ∉ e.1
  keyOneLine : '\n' ∉ e.1
  noComment : e.1.head? ≠ some '#'
  valOneLine : '\n' ∉ e.2

theorem parseLine_lineOf {e : Name × Name} (h : Storable e) : parseLine (lineOf e) = some e := by
  have hall : ∀ c ∈ e.1, decide (c ≠ '=') = true := fun c hc =>
    decide_eq_true fun heq => h.noEquals (heq ▸ hc)
  have hhead : ¬ (lineOf e = [] ∨ (lineOf e).head? = some '#') := by
    have hmark := h.noComment
    unfold lineOf
    cases hkey : e.1 with
    | nil => simp
    | cons c cs => simpa [hkey] using hmark
  rw [parseLine, if_neg hhead]
  have hdrop : (lineOf e).dropWhile (· ≠ '=') = '=' :: e.2 := by
    rw [lineOf, List.dropWhile_append_of_pos hall]
    simp
  have htake : (lineOf e).takeWhile (· ≠ '=') = e.1 := by
    rw [lineOf, List.takeWhile_append_of_pos hall]
    simp
  rw [hdrop, htake]

theorem parseLine_storable {line : Name} {e : Name × Name} (hline : '\n' ∉ line)
    (h : parseLine line = some e) : Storable e := by
  unfold parseLine at h
  split_ifs at h with hskip
  rw [not_or] at hskip
  cases hdrop : line.dropWhile (· ≠ '=') with
  | nil =>
      rw [hdrop] at h
      cases h
  | cons c val =>
      rw [hdrop] at h
      cases h
      have hval : val <:+ line := (List.suffix_cons c val).trans (hdrop ▸ List.dropWhile_suffix _)
      have hkey := List.takeWhile_prefix (p := (· ≠ '=')) (l := line)
      constructor
      · intro heq
        have := List.mem_takeWhile_imp heq
        simp at this
      · exact fun hmem => hline (hkey.subset hmem)
      · intro hmark
        apply hskip.2
        cases line with
        | nil => simp at hmark
        | cons a as =>
            rw [List.takeWhile_cons] at hmark
            split_ifs at hmark
            · exact hmark
            · cases hmark
      · exact fun hmem => hline (hval.subset hmem)

theorem readText_storable {text : Name} {e : Name × Name} (h : e ∈ (readText text).entries) :
    Storable e := by
  obtain ⟨hkey, hval⟩ := KeyedMap.mem_entries.mp h
  have hset := (KeyedMap.mem_insertAll_keys.mp hkey).resolve_left List.not_mem_nil
  have hmem := KeyedMap.insertAll_val_mem hset (KeyedMap.empty fun _ => [])
  obtain ⟨line, hline, hparse⟩ := List.mem_filterMap.mp hmem
  have hstorable := parseLine_storable (Lines.notMem_lines hline) hparse
  rwa [show (KeyedMap.insertAll _ _).val e.1 = e.2 from hval] at hstorable

theorem readText_fileText {m : KeyedMap Name Name} (h : ∀ e ∈ m.entries, Storable e) :
    (readText (fileText m)).entries = m.entries := by
  have hlines : ∀ l ∈ m.entries.map lineOf, '\n' ∉ l := by
    intro l hl hnewline
    obtain ⟨e, he, rfl⟩ := List.mem_map.mp hl
    rcases List.mem_append.mp hnewline with hkey | hrest
    · exact (h e he).keyOneLine hkey
    · exact (h e he).valOneLine (by simpa using hrest)
  have hparsed : (m.entries.map lineOf).filterMap parseLine = m.entries := by
    rw [List.filterMap_map]
    calc m.entries.filterMap (parseLine ∘ lineOf) = m.entries.filterMap some :=
          List.filterMap_congr fun e he => parseLine_lineOf (h e he)
      _ = m.entries := List.filterMap_some
  rw [readText, fileText, Lines.lines_joined hlines, hparsed, KeyedMap.insertAll_entries]

theorem EzConfig.save_text {creates : Name → Bool} (c : EzConfig) (t : LocalTime)
    (d : Directory creates) (h : creates (fileName c.prefix_ t) = true) :
    (c.save t d).text (fileName c.prefix_ t) = fileText c.data := Directory.write_text _ h _

/-- The file that `save` writes is read back as the same map if and only if every
entry survives on a line of its own. -/
theorem loadFrom_save_iff {creates : Name → Bool} (c c' : EzConfig) (t : LocalTime)
    (d : Directory creates) (h : creates (EzConfig.fileName c.prefix_ t) = true) :
    (c'.loadFrom (EzConfig.fileName c.prefix_ t) (c.save t d)).data.entries = c.data.entries ↔
      ∀ e ∈ c.data.entries, Storable e := by
  rw [EzConfig.loadFrom, c.save_text t d h]
  constructor
  · intro heq e he
    rw [← heq] at he
    exact readText_storable he
  · exact readText_fileText

def emptyDirectory : Directory fun _ => true := ⟨KeyedMap.empty fun _ => [], fun _ _ => rfl⟩

def someTime : LocalTime :=
  { year := 2026, mon := 10, mday := 25, hour := 2, min := 59, sec := 30 }

/-- A minute after `someTime`, if summer time ends in between. -/
def minuteLater : LocalTime :=
  { year := 2026, mon := 10, mday := 25, hour := 2, min := 0, sec := 30 }

def nextHour : LocalTime :=
  { year := 2026, mon := 10, mday := 25, hour := 3, min := 0, sec := 30 }

/-- An object with one setting. -/
def oneSetting (key val : Name) : EzConfig where
  prefix_ := "cfg".toList
  maxFiles := 3
  maxFiles_range := by decide
  data := KeyedMap.singleton key fun _ => val

theorem loadFrom_save_path :
    ((oneSetting [] []).loadFrom (EzConfig.fileName "cfg".toList someTime)
      ((oneSetting "path".toList "#a=b".toList).save someTime emptyDirectory)).data.entries =
        [("path".toList, "#a=b".toList)] := by
  apply (loadFrom_save_iff (oneSetting "path".toList "#a=b".toList) (oneSetting [] []) someTime
    emptyDirectory rfl).2
  intro e he
  obtain rfl := List.mem_singleton.mp he
  constructor <;> decide

/-- The key `a=b` comes back as `a`. -/
theorem not_loadFrom_save : ¬ ∀ (creates : Name → Bool) (c c' : EzConfig) (t : LocalTime)
    (d : Directory creates), creates (EzConfig.fileName c.prefix_ t) = true →
      (c'.loadFrom (EzConfig.fileName c.prefix_ t) (c.save t d)).data.entries = c.data.entries := by
  intro h
  have hsame := h (fun _ => true) (oneSetting "a=b".toList "c".toList) (oneSetting [] []) someTime
    emptyDirectory rfl
  rw [EzConfig.loadFrom, EzConfig.save_text _ _ _ rfl] at hsame
  revert hsame
  decide

end RwModbus.Settings
