import RwModbus.EzConfig
import RwModbus.Library.Runs

/-!
# Series of files

Which files belong to a series is decided by the start of their names, and which
one is the latest by the order of the names. Two series are apart as long as no
name of the one starts like the other, and the latest file is the last one saved
as long as the local time does not step back.
-/
namespace RwModbus.Settings
open Registers

/-- The local time as one number. -/
def LocalTime.number (t : LocalTime) : ℕ :=
  ((((t.year * 100 + t.mon) * 100 + t.mday) * 100 + t.hour) * 100 + t.min) * 100 + t.sec

theorem digitChar_strictMonoOn : StrictMonoOn Nat.digitChar (Set.Iio 10) := by
  have hlt : ∀ a < 10, ∀ b < 10, a < b → Nat.digitChar a < Nat.digitChar b := by decide
  exact fun a ha b hb => hlt a ha b hb

theorem decimal_lt_iff {w n m : ℕ} (hn : n < 10 ^ w) (hm : m < 10 ^ w) (a b : Name) :
    decimal w n ++ a < decimal w m ++ b ↔ n < m ∨ n = m ∧ a < b :=
  FixedWidth.field_lt_iff digitChar_strictMonoOn hn hm a b

theorem timestamp_lt_iff (t t' : LocalTime) (a : Name) :
    t.timestamp ++ a < t'.timestamp ++ a ↔ t.number < t'.number := by
  obtain ⟨year, mon, mday, hour, min, sec, hyear, hmon, hmday, hhour, hmin, hsec⟩ := t
  obtain ⟨year', mon', mday', hour', min', sec', hyear', hmon', hmday', hhour', hmin', hsec'⟩ := t'
  simp only [LocalTime.timestamp, LocalTime.number, List.append_assoc, List.cons_append]
  rw [decimal_lt_iff (by omega) (by omega), decimal_lt_iff (by omega) (by omega),
    decimal_lt_iff (by omega) (by omega), List.cons_lt_cons_iff, decimal_lt_iff (by omega) (by omega),
    decimal_lt_iff (by omega) (by omega), decimal_lt_iff (by omega) (by omega)]
  simp only [lt_irrefl, and_false, or_false, false_or, true_and]
  omega

theorem fileName_lt_iff (p : Name) (t t' : LocalTime) :
    EzConfig.fileName p t < EzConfig.fileName p t' ↔ t.number < t'.number := by
  rw [EzConfig.fileName, EzConfig.fileName, FixedWidth.append_lt_append_iff rfl, List.cons_lt_cons_iff,
    timestamp_lt_iff]
  simp

theorem fileName_le_iff (p : Name) (t t' : LocalTime) :
    EzConfig.fileName p t ≤ EzConfig.fileName p t' ↔ t.number ≤ t'.number := by
  rw [← not_lt, fileName_lt_iff, not_lt]

namespace EzConfig
variable {creates : Name → Bool}

@[simp] theorem mem_listFiles {c : EzConfig} {d : Directory creates} {n : Name} :
    n ∈ c.listFiles d ↔ n ∈ d.files.keys ∧ c.prefix_ <+: n := by
  simp [listFiles]

/-- The loop removes the first files, as many as there are too many. -/
theorem rotate_keys (m : ℕ) (files : List Name) (d : Directory creates) (n : Name) :
    n ∈ (rotate m files d).files.keys ↔
      n ∈ d.files.keys ∧ n ∉ files.take (files.length + 1 - m) := by
  induction files generalizing d with
  | nil => simp [rotate]
  | cons file files ih =>
      unfold rotate
      split_ifs with hlen
      · rw [List.length_cons] at hlen ⊢
        have htake : files.length + 1 + 1 - m = (files.length + 1 - m) + 1 := by omega
        rw [ih, htake, List.take_succ_cons, List.mem_cons, not_or, Directory.remove,
          KeyedMap.mem_erase_keys, and_assoc]
      · have htake : (file :: files).length + 1 - m = 0 := by omega
        rw [htake, List.take_zero]
        simp

theorem rotate_val (m : ℕ) (files : List Name) (d : Directory creates) :
    (rotate m files d).files.val = d.files.val := by
  induction files generalizing d with
  | nil => rfl
  | cons file files ih =>
      unfold rotate
      split_ifs
      · exact ih _
      · rfl

/-- A file with another name that is not listed stays as it is. -/
theorem save_other {c : EzConfig} {t : LocalTime} {d : Directory creates} {n : Name}
    (hlist : n ∉ c.listFiles d) (hname : n ≠ fileName c.prefix_ t) :
    (n ∈ (c.save t d).files.keys ↔ n ∈ d.files.keys) ∧ (c.save t d).text n = d.text n := by
  have hkept : n ∈ (rotate c.maxFiles (c.listFiles d) d).files.keys ↔ n ∈ d.files.keys := by
    rw [rotate_keys]
    exact and_iff_left fun htake => hlist (List.mem_of_mem_take htake)
  have hkeys : n ∈ (c.save t d).files.keys ↔ n ∈ d.files.keys := by
    rw [save, Directory.mem_write_keys, hkept]
    exact or_iff_right fun h => hname h.1
  refine ⟨hkeys, ?_⟩
  rw [Directory.text, Directory.text]
  simp only [hkeys]
  have hval : (c.save t d).files.val n = d.files.val n := by
    rw [save, Directory.write]
    split_ifs
    · rw [KeyedMap.insert_val_of_ne _ hname, rotate_val]
    · rw [rotate_val]
  rw [hval]

end EzConfig

inductive Call where
  | set (key val : Name)
  | save (t : LocalTime)
  | loadLatest

/-- An object and its directory. -/
structure Session (creates : Name → Bool) where
  cfg : EzConfig
  dir : Directory creates

namespace Session
variable {creates : Name → Bool}

def step (s : Session creates) : Call → Session creates
  | .set key val => { s with cfg := s.cfg.set key val }
  | .save t => { s with dir := s.cfg.save t s.dir }
  | .loadLatest => { s with cfg := s.cfg.loadLatest s.dir }

@[simp] theorem prefix_step (s : Session creates) (call : Call) :
    (s.step call).cfg.prefix_ = s.cfg.prefix_ := by
  cases call with
  | set key val => rfl
  | save t => rfl
  | loadLatest =>
      rw [step, EzConfig.loadLatest]
      split <;> rfl

/-- The call keeps the files of the series `q`, and loads none of them. -/
structure Isolated (q : Name) (s : Session creates) (call : Call) : Prop where
  kept : ∀ t, EzConfig.fileName q t ∈ s.dir.files.keys →
    EzConfig.fileName q t ∈ (s.step call).dir.files.keys ∧
      (s.step call).dir.text (EzConfig.fileName q t) = s.dir.text (EzConfig.fileName q t)
  notLoaded : call = .loadLatest → ∀ t, s.cfg.latest s.dir ≠ some (EzConfig.fileName q t)

/-- No file of the series `q` has a name that starts with `p`. -/
def Apart (creates : Name → Bool) (p q : Name) : Prop :=
  ∀ t, creates (EzConfig.fileName q t) = true → ¬ p <+: EzConfig.fileName q t

theorem isolated {q : Name} {s : Session creates} (h : Apart creates s.cfg.prefix_ q) (call : Call) :
    Isolated q s call := by
  have hlist : ∀ t, EzConfig.fileName q t ∉ s.cfg.listFiles s.dir := by
    intro t hmem
    rw [EzConfig.mem_listFiles] at hmem
    exact h t (s.dir.creatable _ hmem.1) hmem.2
  constructor
  · intro t ht
    cases call with
    | set key val => exact ⟨ht, rfl⟩
    | save t' =>
        have hname : EzConfig.fileName q t ≠ EzConfig.fileName s.cfg.prefix_ t' := by
          intro heq
          apply h t (s.dir.creatable _ ht)
          rw [heq]
          exact List.prefix_append _ _
        obtain ⟨hkeys, htext⟩ := EzConfig.save_other (hlist t) hname
        exact ⟨hkeys.mpr ht, htext⟩
    | loadLatest => exact ⟨ht, rfl⟩
  · intro _ t hlatest
    exact hlist t (List.mem_of_getLast? hlatest)

/-- A directory with one file. -/
def oneFile {n : Name} (h : creates n = true) (text : Name) : Directory creates :=
  ⟨KeyedMap.singleton n fun _ => text, fun _ hj => List.mem_singleton.mp hj ▸ h⟩

/-- In every directory and after any calls an object keeps off the series `q` if and
only if no file of `q` has a name that starts with the object's prefix. -/
theorem along_isolated_iff (c : EzConfig) (q : Name) :
    (∀ (d : Directory creates) (calls : List Call), Runs.Along step (Isolated q) ⟨c, d⟩ calls) ↔
      Apart creates c.prefix_ q := by
  constructor
  · intro h t ht hprefix
    have hload := (h (oneFile ht []) [.loadLatest]).1.notLoaded rfl t
    apply hload
    have hlist : c.listFiles (oneFile ht []) = [EzConfig.fileName q t] := by
      simp [EzConfig.listFiles, oneFile, hprefix]
    rw [EzConfig.latest, hlist, List.getLast?_singleton]
  · intro h d calls
    exact Runs.along_of_invariant (I := fun s => Apart creates s.cfg.prefix_ q)
      (fun s call hs => isolated hs call) (fun s call hs => by rwa [prefix_step]) calls h

/-- A save of the series `a`, of which one file is kept, removes a file of the series `ab`. -/
theorem not_along_isolated : ¬ ∀ (creates : Name → Bool) (c : EzConfig) (q : Name), c.prefix_ ≠ q →
    ∀ (d : Directory creates) (calls : List Call), Runs.Along step (Isolated q) ⟨c, d⟩ calls := by
  intro h
  have hcalls := h (fun _ => true) ⟨"a".toList, 1, by decide, KeyedMap.empty fun _ => []⟩ "ab".toList
    (by decide) (oneFile (n := EzConfig.fileName "ab".toList someTime) rfl []) [.save someTime]
  have hkept := hcalls.1.kept someTime (List.mem_singleton_self _)
  revert hkept
  decide

/-- The directory holds files of the object's series only. -/
def SeriesOnly (s : Session creates) : Prop :=
  ∀ n ∈ s.dir.files.keys, ∃ t, n = EzConfig.fileName s.cfg.prefix_ t

/-- A save leaves at most `max_files` files, the one that it wrote being the latest. -/
structure KeepsNewest (s : Session creates) (t : LocalTime) : Prop where
  few : (s.cfg.save t s.dir).files.keys.length ≤ s.cfg.maxFiles
  newest : creates (EzConfig.fileName s.cfg.prefix_ t) = true →
    s.cfg.latest (s.cfg.save t s.dir) = some (EzConfig.fileName s.cfg.prefix_ t)

/-- No file that a save finds is of a later local time, unless the save removes them all. -/
def ClockForward (s : Session creates) (t : LocalTime) : Prop :=
  s.cfg.maxFiles = 1 ∨ ∀ t', EzConfig.fileName s.cfg.prefix_ t' ∈ s.dir.files.keys → t'.number ≤ t.number

section
variable {s : Session creates}

theorem SeriesOnly.listFiles (h : SeriesOnly s) : s.cfg.listFiles s.dir = s.dir.files.keys := by
  rw [EzConfig.listFiles, List.filter_eq_self]
  intro n hn
  obtain ⟨t, rfl⟩ := h n hn
  exact decide_eq_true (List.prefix_append _ _)

theorem SeriesOnly.step (h : SeriesOnly s) (call : Call) : SeriesOnly (s.step call) := by
  intro n hn
  rw [prefix_step]
  cases call with
  | set key val => exact h n hn
  | loadLatest => exact h n hn
  | save t =>
      rw [Session.step, EzConfig.save, Directory.mem_write_keys, EzConfig.rotate_keys] at hn
      obtain ⟨rfl, -⟩ | ⟨hold, -⟩ := hn
      · exact ⟨t, rfl⟩
      · exact h n hold

/-- The loop keeps the last files, one less than there may be. -/
theorem SeriesOnly.rotated (h : SeriesOnly s) :
    (EzConfig.rotate s.cfg.maxFiles (s.cfg.listFiles s.dir) s.dir).files.keys =
      s.dir.files.keys.drop (s.dir.files.keys.length + 1 - s.cfg.maxFiles) := by
  apply (KeyedMap.ascending _).eq_of_mem_iff (s.dir.files.ascending.drop)
  intro n
  rw [h.listFiles, EzConfig.rotate_keys, KeyedMap.mem_drop_keys_iff]

theorem SeriesOnly.few (h : SeriesOnly s) (t : LocalTime) :
    (s.cfg.save t s.dir).files.keys.length ≤ s.cfg.maxFiles := by
  have hpos := s.cfg.maxFiles_range.1
  have hrotated := congrArg List.length h.rotated
  rw [List.length_drop] at hrotated
  rw [EzConfig.save, Directory.write]
  split_ifs
  · have hinsert := KeyedMap.insertKey_length_le (EzConfig.fileName s.cfg.prefix_ t)
      (EzConfig.rotate s.cfg.maxFiles (s.cfg.listFiles s.dir) s.dir).files.keys
    exact hinsert.trans (by omega)
  · omega

theorem SeriesOnly.newest_iff (h : SeriesOnly s) {t : LocalTime}
    (hcreates : creates (EzConfig.fileName s.cfg.prefix_ t) = true) :
    s.cfg.latest (s.cfg.save t s.dir) = some (EzConfig.fileName s.cfg.prefix_ t) ↔ ClockForward s t := by
  have hlist : s.cfg.listFiles (s.cfg.save t s.dir) = (s.cfg.save t s.dir).files.keys :=
    (h.step (.save t)).listFiles
  have hkeys : ∀ n, n ∈ (s.cfg.save t s.dir).files.keys ↔ n = EzConfig.fileName s.cfg.prefix_ t ∨
      n ∈ s.dir.files.keys.drop (s.dir.files.keys.length + 1 - s.cfg.maxFiles) := by
    intro n
    rw [EzConfig.save, Directory.mem_write_keys, h.rotated]
    simp [hcreates]
  have hall : (∀ n ∈ (s.cfg.save t s.dir).files.keys, n ≤ EzConfig.fileName s.cfg.prefix_ t) ↔
      ∀ n ∈ s.dir.files.keys.drop (s.dir.files.keys.length + 1 - s.cfg.maxFiles),
        n ≤ EzConfig.fileName s.cfg.prefix_ t := by
    simp only [hkeys, forall_eq_or_imp, le_refl, true_and]
  have htimes : (∀ n ∈ s.dir.files.keys, n ≤ EzConfig.fileName s.cfg.prefix_ t) ↔
      ∀ t', EzConfig.fileName s.cfg.prefix_ t' ∈ s.dir.files.keys → t'.number ≤ t.number := by
    constructor
    · intro hle t' ht'
      exact (fileName_le_iff _ _ _).mp (hle _ ht')
    · intro hle n hn
      obtain ⟨t', rfl⟩ := h n hn
      exact (fileName_le_iff _ _ _).mpr (hle t' hn)
  have hpos := s.cfg.maxFiles_range.1
  rw [EzConfig.latest, hlist, KeyedMap.getLast?_keys_iff ((hkeys _).mpr (.inl rfl)), hall, ClockForward,
    ← htimes]
  by_cases hone : s.cfg.maxFiles = 1
  · simp [hone]
  · cases hnil : s.dir.files.keys with
    | nil => simp
    | cons n ns =>
        rw [← hnil, KeyedMap.forall_drop_iff]
        · simp [hone]
        · rw [hnil, List.length_cons]
          omega

theorem SeriesOnly.keepsNewest_iff (h : SeriesOnly s) (t : LocalTime) : KeepsNewest s t ↔
    creates (EzConfig.fileName s.cfg.prefix_ t) = true → ClockForward s t := by
  constructor
  · intro hkeeps hcreates
    exact (h.newest_iff hcreates).mp (hkeeps.newest hcreates)
  · intro hclock
    exact ⟨h.few t, fun hcreates => (h.newest_iff hcreates).mpr (hclock hcreates)⟩

end

/-- Along calls on a directory of one series, the saves keep the newest state if and
only if none of them finds a file of a later local time. -/
theorem along_keepsNewest_iff {s : Session creates} (h : SeriesOnly s) (calls : List Call) :
    Runs.Along step (fun s call => ∀ t, call = .save t → KeepsNewest s t) s calls ↔
      Runs.Along step (fun s call => ∀ t, call = .save t →
        creates (EzConfig.fileName s.cfg.prefix_ t) = true → ClockForward s t) s calls :=
  Runs.along_iff (I := SeriesOnly) (fun _ _ hs => forall_congr' fun t => forall_congr' fun _ =>
    hs.keepsNewest_iff t) (fun _ call hs _ => hs.step call) calls h

/-- A directory with the file of a save at `someTime`. -/
def savedOnce : Session fun _ => true :=
  ⟨oneSetting [] [], oneFile (n := EzConfig.fileName "cfg".toList someTime) rfl []⟩

theorem savedOnce_seriesOnly : SeriesOnly savedOnce := fun _ hn => ⟨someTime, List.mem_singleton.mp hn⟩

theorem savedOnce_clockForward_iff (t : LocalTime) :
    ClockForward savedOnce t ↔ someTime.number ≤ t.number := by
  have hmany : savedOnce.cfg.maxFiles ≠ 1 := by decide
  constructor
  · intro h
    exact h.resolve_left hmany someTime (List.mem_singleton_self _)
  · intro h
    refine .inr fun t' ht' => ?_
    have hsame := List.mem_singleton.mp ht'
    exact ((fileName_le_iff _ _ _).mp hsame.le).trans h

theorem savedOnce_keepsNewest : Runs.Along step (fun s call => ∀ t, call = .save t → KeepsNewest s t)
    savedOnce [.save nextHour] := by
  apply (along_keepsNewest_iff savedOnce_seriesOnly [.save nextHour]).2
  refine ⟨fun t ht _ => ?_, trivial⟩
  cases ht
  rw [savedOnce_clockForward_iff]
  decide

/-- At the end of summer time the file of a save is not the latest one. -/
theorem not_keepsNewest : ¬ ∀ (creates : Name → Bool) (s : Session creates), SeriesOnly s →
    ∀ calls, Runs.Along step (fun s call => ∀ t, call = .save t → KeepsNewest s t) s calls := by
  intro h
  have hkeeps := (h _ savedOnce savedOnce_seriesOnly [.save minuteLater]).1 _ rfl
  have hclock := (savedOnce_seriesOnly.newest_iff rfl).mp (hkeeps.newest rfl)
  rw [savedOnce_clockForward_iff] at hclock
  revert hclock
  decide

end Session

end RwModbus.Settings
