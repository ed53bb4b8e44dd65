import RwModbus.EzSeries

/-!
# Settings as a store with a snapshot

Whatever is set is kept as a text: numbers and truth values are printed, and read back
by `std::stoi` and by comparison. For its callers an `EzConfig` is a map of typed values
with the snapshot of the last save, which a load or a restart brings back.
-/
namespace RwModbus.Settings
open Registers

/-- `std::to_string` of an `int`. -/
def toText (n : ℤ) : Name :=
  if n < 0 then '-' :: Nat.toDigits 10 n.natAbs else Nat.toDigits 10 n.natAbs

/-- The range of an `int`. -/
def IntRange (n : ℤ) : Prop := -2 ^ 31 ≤ n ∧ n < 2 ^ 31

instance (n : ℤ) : Decidable (IntRange n) := inferInstanceAs (Decidable (_ ∧ _))

/-- `std::isspace`. -/
def isSpace (c : Char) : Bool := decide (c = ' ' ∨ 9 ≤ c.toNat ∧ c.toNat ≤ 13)

/-- A sign and what follows it. -/
def splitSign : Name → Bool × Name
  | [] => (false, [])
  | c :: s => if c = '-' then (true, s) else if c = '+' then (false, s) else (false, c :: s)

/-- `std::stoi`; there is no result where it throws. -/
def stoi (s : Name) : Option ℤ :=
  let r := splitSign (s.dropWhile isSpace)
  let digits := r.2.takeWhile Char.isDigit
  let n : ℤ := if r.1 then -(Nat.ofDigitChars 10 digits 0 : ℤ) else Nat.ofDigitChars 10 digits 0
  if digits ≠ [] ∧ IntRange n then some n else none

theorem isDigit_toNat {c : Char} (h : c.isDigit = true) : 48 ≤ c.toNat ∧ c.toNat ≤ 57 := by
  simp only [Char.isDigit, Bool.and_eq_true, decide_eq_true_eq, ge_iff_le, UInt32.le_iff_toNat_le] at h
  exact h

/-- A digit is no sign, no line break and no space. -/
theorem digit_ne {c : Char} (h : c.isDigit = true) :
    c ≠ '-' ∧ c ≠ '+' ∧ c ≠ '\n' ∧ isSpace c = false := by
  have hcode := isDigit_toNat h
  have hne : ∀ d : Char, d.toNat < 48 → c ≠ d := by
    intro d hd heq
    subst heq
    omega
  refine ⟨hne '-' (by decide), hne '+' (by decide), hne '\n' (by decide), ?_⟩
  rw [isSpace, decide_eq_false_iff_not, not_or]
  exact ⟨hne ' ' (by decide), by omega⟩

theorem toDigits_digits (n : ℕ) : ∀ c ∈ Nat.toDigits 10 n, c.isDigit = true :=
  fun _ hc => Nat.isDigit_of_mem_toDigits (by decide) (by decide) hc

theorem takeWhile_toDigits (n : ℕ) : (Nat.toDigits 10 n).takeWhile Char.isDigit = Nat.toDigits 10 n :=
  List.takeWhile_eq_self_iff.mpr (toDigits_digits n)

theorem toDigits_ne_nil (n : ℕ) : Nat.toDigits 10 n ≠ [] := by
  intro h
  have hlen := Nat.length_toDigits_pos (b := 10) (n := n)
  rw [h] at hlen
  exact Nat.lt_irrefl 0 hlen

theorem splitSign_toDigits (n : ℕ) : splitSign ((Nat.toDigits 10 n).dropWhile isSpace) =
    (false, Nat.toDigits 10 n) := by
  have hdigits := toDigits_digits n
  cases hd : Nat.toDigits 10 n with
  | nil => exact absurd hd (toDigits_ne_nil n)
  | cons c s =>
      rw [hd] at hdigits
      obtain ⟨hminus, hplus, -, hspace⟩ := digit_ne (hdigits c List.mem_cons_self)
      rw [List.dropWhile_cons_of_neg (by simp [hspace]), splitSign, if_neg hminus, if_neg hplus]

/-- An `int` is read back from its text. -/
theorem stoi_toText {n : ℤ} (h : IntRange n) : stoi (toText n) = some n := by
  unfold toText
  split_ifs with hneg
  · have hspace : isSpace '-' = false := by decide
    have habs : -(n.natAbs : ℤ) = n := by omega
    rw [stoi, List.dropWhile_cons_of_neg (by simp [hspace]), splitSign, if_pos rfl]
    dsimp only
    rw [takeWhile_toDigits, Nat.ofDigitChars_ten_toDigits, if_pos rfl, habs,
      if_pos ⟨toDigits_ne_nil _, h⟩]
  · have habs : (n.natAbs : ℤ) = n := by omega
    rw [stoi, splitSign_toDigits]
    dsimp only
    rw [takeWhile_toDigits, Nat.ofDigitChars_ten_toDigits, if_neg Bool.false_ne_true, habs,
      if_pos ⟨toDigits_ne_nil _, h⟩]

theorem toText_oneLine (n : ℤ) : '\n' ∉ toText n := by
  have hdigits : '\n' ∉ Nat.toDigits 10 n.natAbs :=
    fun hc => (digit_ne (toDigits_digits _ _ hc)).2.2.1 rfl
  unfold toText
  split_ifs
  · rw [List.mem_cons, not_or]
    exact ⟨by decide, hdigits⟩
  · exact hdigits

/-- What the overloads of `set` take. -/
inductive Value where
  | text (s : Name)
  | int (n : ℤ) (range : IntRange n)
  | bool (b : Bool)

/-- The text that `set` stores. -/
def Value.print : Value → Name
  | .text s => s
  | .int n _ => toText n
  | .bool b => if b then "true".toList else "false".toList

/-- The comparisons of `getBool`. -/
def truth (val : Name) : Option Bool :=
  if val = "true".toList ∨ val = "1".toList then some true
  else if val = "false".toList ∨ val = "0".toList then some false
  else none

/-- `data_.find(key)`. -/
def find (data : KeyedMap Name Name) (key : Name) : Option Name :=
  if key ∈ data.keys then some (data.val key) else none

namespace EzConfig

def get (c : EzConfig) (key dflt : Name) : Name := (find c.data key).getD dflt

def getInt (c : EzConfig) (key : Name) (dflt : ℤ) : ℤ :=
  match find c.data key with
  | none => dflt
  | some val => (stoi val).getD dflt

def getBool (c : EzConfig) (key : Name) (dflt : Bool) : Bool := (truth (c.get key [])).getD dflt

end EzConfig

namespace Value

/-- The `int` that a value is for `getInt`. -/
def asInt : Value → Option ℤ
  | .text s => stoi s
  | .int n _ => some n
  | .bool _ => none

def asBool : Value → Option Bool
  | .text s => truth s
  | .int n _ => if n = 1 then some true else if n = 0 then some false else none
  | .bool b => some b

theorem stoi_print (v : Value) : stoi v.print = v.asInt := by
  cases v with
  | text s => rfl
  | int n range => exact stoi_toText range
  | bool b => cases b <;> decide

theorem toText_eq_iff {n m : ℤ} (hn : IntRange n) (hm : IntRange m) : toText n = toText m ↔ n = m := by
  constructor
  · intro h
    have hread := stoi_toText hn
    rw [h, stoi_toText hm] at hread
    exact (Option.some.inj hread).symm
  · exact congrArg toText

/-- No number is printed as a word. -/
theorem toText_ne {n : ℤ} (hn : IntRange n) {s : Name} (hs : stoi s = none) : toText n ≠ s := by
  intro h
  rw [← h, stoi_toText hn] at hs
  exact Option.some_ne_none n hs

theorem truth_print (v : Value) : truth v.print = v.asBool := by
  cases v with
  | text s => rfl
  | bool b => cases b <;> decide
  | int n range =>
      have htrue : toText n ≠ "true".toList := toText_ne range (by decide)
      have hfalse : toText n ≠ "false".toList := toText_ne range (by decide)
      have hone : toText n = "1".toList ↔ n = 1 := toText_eq_iff (m := 1) range (by decide)
      have hzero : toText n = "0".toList ↔ n = 0 := toText_eq_iff (m := 0) range (by decide)
      simp only [print, truth, asBool, htrue, hfalse, hone, hzero, false_or]

theorem oneLine_print {v : Value} (h : ∀ s, v = .text s → '\n' ∉ s) : '\n' ∉ v.print := by
  cases v with
  | text s => exact h s rfl
  | int n range => exact toText_oneLine n
  | bool b => cases b <;> decide

end Value

/-- What callers see: typed values, and those of the last save. -/
structure Store where
  now : Name → Option Value
  saved : Option (Name → Option Value)

inductive Op where
  | set (key : Name) (v : Value)
  | save (t : LocalTime)
  | loadLatest
  | restart (maxFiles : ℤ)

def Store.step (a : Store) : Op → Store
  | .set key v => { a with now := Function.update a.now key (some v) }
  | .save _ => { a with saved := some a.now }
  | .loadLatest => { a with now := a.saved.getD a.now }
  | .restart _ => { a with now := a.saved.getD fun _ => none }

namespace Session
variable {creates : Name → Bool}

/-- A restart makes a new object for the same series. -/
def act (s : Session creates) : Op → Session creates
  | .set key v => s.step (.set key v.print)
  | .save t => s.step (.save t)
  | .loadLatest => s.step .loadLatest
  | .restart maxFiles => { s with cfg := EzConfig.new s.cfg.prefix_ maxFiles s.dir }

/-- Keys and texts survive on a line, and saves create the file that is then the latest. -/
def Fits (s : Session creates) : Op → Prop
  | .set key v => Storable (key, []) ∧ ∀ text, v = .text text → '\n' ∉ text
  | .save t => creates (EzConfig.fileName s.cfg.prefix_ t) = true ∧ s.ClockForward t
  | _ => True

/-- The texts are those of the values, and each survives on a line of its own. -/
structure Reads (data : KeyedMap Name Name) (m : Name → Option Value) : Prop where
  texts : ∀ key, find data key = (m key).map Value.print
  storable : ∀ key ∈ data.keys, Storable (key, data.val key)

/-- The latest file has what was saved; without a save there is none. -/
def OnDisk (s : Session creates) : Option (Name → Option Value) → Prop
  | none => s.dir.files.keys = []
  | some m => ∃ n, s.cfg.latest s.dir = some n ∧ Reads (readText (s.dir.text n)) m

structure Refines (a : Store) (s : Session creates) : Prop where
  series : s.SeriesOnly
  data : Reads s.cfg.data a.now
  disk : s.OnDisk a.saved

theorem find_insert (data : KeyedMap Name Name) (key val k : Name) :
    find (data.insert key val) k = if k = key then some val else find data k := by
  unfold find
  by_cases hk : k = key
  · subst hk
    rw [if_pos (KeyedMap.mem_insert_keys.mpr (Or.inl rfl)), if_pos rfl, KeyedMap.insert_val_self]
  · rw [KeyedMap.insert_val_of_ne _ hk, if_neg hk]
    simp only [KeyedMap.mem_insert_keys, hk, false_or]

theorem Reads.set {data : KeyedMap Name Name} {m : Name → Option Value} (h : Reads data m)
    {key : Name} {v : Value} (hkey : Storable (key, [])) (hv : ∀ text, v = .text text → '\n' ∉ text) :
    Reads (data.insert key v.print) (Function.update m key (some v)) := by
  constructor
  · intro k
    rw [find_insert]
    by_cases hk : k = key
    · subst hk
      rw [if_pos rfl, Function.update_self]
      rfl
    · rw [if_neg hk, Function.update_of_ne hk]
      exact h.texts k
  · have hnew : Storable (key, v.print) :=
      ⟨hkey.noEquals, hkey.keyOneLine, hkey.noComment, Value.oneLine_print hv⟩
    exact KeyedMap.forall_insert (P := fun k text => Storable (k, text)) hnew h.storable

/-- Only the entries matter. -/
theorem Reads.of_entries {data data' : KeyedMap Name Name} {m : Name → Option Value}
    (h : Reads data m) (heq : data'.entries = data.entries) : Reads data' m := by
  have hkeys : data'.keys = data.keys := by
    rw [← KeyedMap.entries_keys, heq, KeyedMap.entries_keys]
  have hval : ∀ key ∈ data.keys, data'.val key = data.val key := by
    intro key hkey
    have hmem : (key, data.val key) ∈ data'.entries := by
      rw [heq]
      exact KeyedMap.mem_entries.mpr ⟨hkey, rfl⟩
    exact (KeyedMap.mem_entries.mp hmem).2
  constructor
  · intro key
    rw [← h.texts key, find, find, hkeys]
    by_cases hkey : key ∈ data.keys
    · rw [if_pos hkey, if_pos hkey, hval key hkey]
    · rw [if_neg hkey, if_neg hkey]
  · intro key hkey
    rw [hkeys] at hkey
    rw [hval key hkey]
    exact h.storable key hkey

theorem Reads.fileText {data : KeyedMap Name Name} {m : Name → Option Value} (h : Reads data m) :
    Reads (readText (fileText data)) m := by
  apply h.of_entries
  apply readText_fileText
  intro e he
  obtain ⟨hkey, hval⟩ := KeyedMap.mem_entries.mp he
  have hline := h.storable e.1 hkey
  rwa [hval] at hline

theorem reads_empty : Reads (KeyedMap.empty fun _ => []) fun _ => none :=
  ⟨fun _ => rfl, fun _ hkey => absurd hkey List.not_mem_nil⟩

section
variable {a : Store} {s : Session creates}

/-- Whatever a load finds in the directory. -/
theorem Refines.loads (h : Refines a s) {c : EzConfig} (hsame : c.prefix_ = s.cfg.prefix_)
    {m : Name → Option Value} (hm : Reads c.data m) :
    Reads (c.loadLatest s.dir).data (a.saved.getD m) := by
  have hlatest : c.latest s.dir = s.cfg.latest s.dir := by
    simp only [EzConfig.latest, EzConfig.listFiles, hsame]
  have hdisk := h.disk
  cases hsaved : a.saved with
  | none =>
      rw [hsaved] at hdisk
      have hnone : s.cfg.latest s.dir = none := by
        rw [EzConfig.latest, h.series.listFiles, hdisk]
        rfl
      rw [EzConfig.loadLatest, hlatest, hnone]
      exact hm
  | some m' =>
      rw [hsaved] at hdisk
      obtain ⟨n, hn, hreads⟩ := hdisk
      rw [EzConfig.loadLatest, hlatest, hn]
      exact hreads

/-- A new object for the series leaves the directory. -/
theorem OnDisk.of_cfg {c : EzConfig} (hsame : c.prefix_ = s.cfg.prefix_)
    {m : Option (Name → Option Value)} (h : s.OnDisk m) : OnDisk ⟨c, s.dir⟩ m := by
  cases m with
  | none => exact h
  | some m =>
      obtain ⟨n, hn, hreads⟩ := h
      refine ⟨n, ?_, hreads⟩
      rw [← hn]
      simp only [EzConfig.latest, EzConfig.listFiles, hsame]

theorem prefix_loadLatest (c : EzConfig) (d : Directory creates) :
    (c.loadLatest d).prefix_ = c.prefix_ := prefix_step ⟨c, d⟩ .loadLatest

theorem Refines.save (h : Refines a s) {t : LocalTime} (hok : s.Fits (.save t)) :
    Refines (a.step (.save t)) (s.act (.save t)) := by
  obtain ⟨hcreates, hclock⟩ := hok
  refine ⟨h.series.step (.save t), h.data, ?_⟩
  refine ⟨EzConfig.fileName s.cfg.prefix_ t, (h.series.newest_iff hcreates).mpr hclock, ?_⟩
  have htext : (s.act (.save t)).dir.text (EzConfig.fileName s.cfg.prefix_ t) =
      Settings.fileText s.cfg.data :=
    EzConfig.save_text s.cfg t s.dir hcreates
  rw [htext]
  exact h.data.fileText

theorem Refines.act (h : Refines a s) {op : Op} (hok : s.Fits op) : Refines (a.step op) (s.act op) := by
  cases op with
  | set key v => exact ⟨h.series.step (.set key v.print), h.data.set hok.1 hok.2, h.disk.of_cfg rfl⟩
  | save t => exact h.save hok
  | loadLatest =>
      exact ⟨h.series.step .loadLatest, h.loads rfl h.data, h.disk.of_cfg (prefix_loadLatest _ _)⟩
  | restart maxFiles =>
      have hsame : (EzConfig.new s.cfg.prefix_ maxFiles s.dir).prefix_ = s.cfg.prefix_ :=
        prefix_loadLatest _ _
      have hloaded : Reads (EzConfig.new s.cfg.prefix_ maxFiles s.dir).data
          (a.saved.getD fun _ => none) := by
        rw [EzConfig.new]
        apply h.loads
        · rfl
        · exact reads_empty
      refine ⟨?_, hloaded, h.disk.of_cfg hsame⟩
      intro n hn
      obtain ⟨t, ht⟩ := h.series n hn
      refine ⟨t, ?_⟩
      rw [ht]
      exact congrArg (EzConfig.fileName · t) hsame.symm

end

/-- A new series: an object whose directory has no files. -/
def fresh (p : Name) (maxFiles : ℤ) : Session creates :=
  let d : Directory creates := ⟨KeyedMap.empty fun _ => [], fun _ hn => absurd hn List.not_mem_nil⟩
  ⟨EzConfig.new p maxFiles d, d⟩

def noValues : Store := ⟨fun _ => none, none⟩

theorem fresh_refines (p : Name) (maxFiles : ℤ) :
    Refines noValues (fresh p maxFiles : Session creates) :=
  ⟨fun _ hn => absurd hn List.not_mem_nil, reads_empty, rfl⟩

/-- What is read of an object after any calls is what the store has at that point. -/
structure Answers (c : EzConfig) (m : Name → Option Value) (key : Name) : Prop where
  get : ∀ dflt, c.get key dflt = ((m key).map Value.print).getD dflt
  getInt : ∀ dflt, c.getInt key dflt = ((m key).bind Value.asInt).getD dflt
  getBool : ∀ dflt, c.getBool key dflt = ((m key).bind Value.asBool).getD dflt

theorem Reads.answers {c : EzConfig} {m : Name → Option Value} (h : Reads c.data m) (key : Name) :
    Answers c m key := by
  have htext := h.texts key
  cases hm : m key with
  | none =>
      rw [hm] at htext
      refine ⟨fun dflt => ?_, fun dflt => ?_, fun dflt => ?_⟩
      · rw [EzConfig.get, htext, hm]
      · rw [EzConfig.getInt, htext, hm]
        rfl
      · rw [EzConfig.getBool, EzConfig.get, htext, hm]
        rfl
  | some v =>
      rw [hm] at htext
      refine ⟨fun dflt => ?_, fun dflt => ?_, fun dflt => ?_⟩
      · rw [EzConfig.get, htext, hm]
      · rw [EzConfig.getInt, htext, hm]
        exact congrArg (·.getD dflt) v.stoi_print
      · rw [EzConfig.getBool, EzConfig.get, htext, hm]
        exact congrArg (·.getD dflt) v.truth_print

/-- From a new series on, all that an object answers is what the store has, whatever was
set, saved, loaded and restarted, as long as saves find no later file. -/
theorem store_answers {p : Name} {maxFiles : ℤ} {ops : List Op}
    (hops : Runs.Along act Fits (fresh p maxFiles : Session creates) ops) (key : Name) :
    Answers (Runs.run act (fresh p maxFiles : Session creates) ops).cfg
      (Runs.run Store.step noValues ops).now key :=
  (hops.simulates (fun _ _ _ h hok => h.act hok) (fresh_refines p maxFiles)).data.answers key

theorem storable_speed : Storable ("speed".toList, []) := by
  constructor <;> decide

/-- A number set, saved and overwritten comes back with a restart. -/
theorem speed_answers : Answers
    (Runs.run act (fresh "cfg".toList 3 : Session fun _ => true)
      [.set "speed".toList (.int (-15) (by decide)), .save someTime,
        .set "speed".toList (.bool true), .restart 5]).cfg
    (Runs.run Store.step noValues
      [.set "speed".toList (.int (-15) (by decide)), .save someTime,
        .set "speed".toList (.bool true), .restart 5]).now "speed".toList := by
  apply store_answers
  refine ⟨⟨storable_speed, fun text h => ?_⟩, ⟨rfl, Or.inr fun t ht => ?_⟩,
    ⟨storable_speed, fun text h => ?_⟩, trivial, trivial⟩
  · cases h
  · exact absurd ht List.not_mem_nil
  · cases h

end Session

end RwModbus.Settings
