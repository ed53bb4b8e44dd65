import Mathlib

/-!
# Maps iterated in key order

A finite map is its strictly ascending key list together with a total value
function. Loops follow the key list, so a value outside it is never observed
by iteration. Writing through a reference to a stored value keeps the keys;
assigning through a subscript adds the key if it is new.
-/

structure KeyedMap (κ ν : Type) [LinearOrder κ] where
  keys : List κ
  ascending : keys.Pairwise (· < ·)
  val : κ → ν

namespace KeyedMap
variable {κ ν : Type} [LinearOrder κ]

theorem nodup (m : KeyedMap κ ν) : m.keys.Nodup :=
  m.ascending.imp fun h => h.ne

def singleton (k : κ) (f : κ → ν) : KeyedMap κ ν := ⟨[k], List.pairwise_singleton _ k, f⟩

@[simp] theorem singleton_keys (k : κ) (f : κ → ν) : (singleton k f).keys = [k] := rfl

@[simp] theorem singleton_val (k : κ) (f : κ → ν) : (singleton k f).val = f := rfl

/-- Write through a reference to the value at `k`. -/
def modify (m : KeyedMap κ ν) (k : κ) (f : ν → ν) : KeyedMap κ ν :=
  { m with val := Function.update m.val k (f (m.val k)) }

/-- One pass of a range-for over the map with the value taken by reference. -/
def mapVals (m : KeyedMap κ ν) (f : κ → ν → ν) : KeyedMap κ ν :=
  { m with val := fun k => f k (m.val k) }

@[simp] theorem modify_keys (m : KeyedMap κ ν) (k : κ) (f : ν → ν) :
    (m.modify k f).keys = m.keys := rfl

@[simp] theorem modify_val_self (m : KeyedMap κ ν) (k : κ) (f : ν → ν) :
    (m.modify k f).val k = f (m.val k) := by
  simp [modify]

theorem modify_val_of_ne (m : KeyedMap κ ν) {j k : κ} (h : j ≠ k) (f : ν → ν) :
    (m.modify k f).val j = m.val j := by
  simp [modify, h]

theorem modify_val (m : KeyedMap κ ν) (j k : κ) (f : ν → ν) :
    (m.modify k f).val j = if j = k then f (m.val k) else m.val j := by
  by_cases h : j = k
  · subst h; simp
  · rw [if_neg h, m.modify_val_of_ne h]

/-- Writing through references to the values at several keys, one after the other. -/
theorem foldl_modify_val {f : ν → ν} {ks : List κ} (hks : ks.Nodup) (m : KeyedMap κ ν) (k : κ) :
    (ks.foldl (fun m j => m.modify j f) m).val k = if k ∈ ks then f (m.val k) else m.val k := by
  induction ks generalizing m with
  | nil => rfl
  | cons j js ih =>
      obtain ⟨hout, hnodup⟩ := List.nodup_cons.mp hks
      rw [List.foldl_cons, ih hnodup, modify_val]
      by_cases h : k = j
      · subst h
        simp [hout]
      · simp [h]

@[simp] theorem mapVals_keys (m : KeyedMap κ ν) (f : κ → ν → ν) :
    (m.mapVals f).keys = m.keys := rfl

@[simp] theorem mapVals_val (m : KeyedMap κ ν) (f : κ → ν → ν) (k : κ) :
    (m.mapVals f).val k = f k (m.val k) := rfl

/-- The keys that a loop visits before `k`. -/
def before (m : KeyedMap κ ν) (k : κ) : List κ := m.keys.takeWhile (· ≠ k)

/-- The keys that a loop visits after `k`. -/
def after (m : KeyedMap κ ν) (k : κ) : List κ := (m.keys.dropWhile (· ≠ k)).tail

theorem keys_split (m : KeyedMap κ ν) {k : κ} (hk : k ∈ m.keys) :
    m.keys = m.before k ++ k :: m.after k := by
  unfold before after
  generalize m.keys = ks at hk ⊢
  induction ks with
  | nil => exact absurd hk List.not_mem_nil
  | cons j ks ih =>
      by_cases h : j = k
      · simp [h]
      · have htail := ih (by simpa [Ne.symm h] using hk)
        rw [List.takeWhile_cons_of_pos (by simpa using h),
          List.dropWhile_cons_of_pos (by simpa using h), List.cons_append, ← htail]

theorem notMem_before (m : KeyedMap κ ν) (k : κ) : k ∉ m.before k := by
  intro h
  have := List.mem_takeWhile_imp h
  simp at this

theorem notMem_after (m : KeyedMap κ ν) {k : κ} (hk : k ∈ m.keys) : k ∉ m.after k := by
  have hnd := m.nodup
  rw [m.keys_split hk] at hnd
  exact (List.nodup_cons.mp (List.nodup_append.mp hnd).2.1).1

theorem mem_of_mem_before {m : KeyedMap κ ν} {j k : κ} (h : j ∈ m.before k) : j ∈ m.keys :=
  (List.takeWhile_prefix _).subset h

theorem mem_of_mem_after {m : KeyedMap κ ν} {j k : κ} (h : j ∈ m.after k) : j ∈ m.keys :=
  (List.dropWhile_suffix _).subset (List.mem_of_mem_tail h)

theorem before_sublist (m : KeyedMap κ ν) (k : κ) : (m.before k).Sublist m.keys :=
  List.takeWhile_sublist _

theorem after_sublist (m : KeyedMap κ ν) (k : κ) : (m.after k).Sublist m.keys :=
  (List.tail_sublist _).trans (List.dropWhile_sublist _)

/-- What comes up to `k` does not come after it. -/
theorem upto_ne_after (m : KeyedMap κ ν) {i j k : κ} (hk : k ∈ m.keys)
    (hi : i ∈ m.before k ++ [k]) (hj : j ∈ m.after k) : i ≠ j := by
  have hnd := m.nodup
  rw [m.keys_split hk, List.append_cons] at hnd
  exact (List.nodup_append.mp hnd).2.2 i hi j hj

theorem mem_of_mem_upto {m : KeyedMap κ ν} {j k : κ} (hk : k ∈ m.keys)
    (h : j ∈ m.before k ++ [k]) : j ∈ m.keys := by
  rw [m.keys_split hk, List.append_cons]
  exact List.mem_append_left _ h

/-- A loop that stops at a hit stops at the least one. -/
theorem find?_least {m : KeyedMap κ ν} {p : κ → Bool} {k : κ} (h : m.keys.find? p = some k)
    {j : κ} (hj : j ∈ m.keys) (hp : p j = true) : k ≤ j := by
  obtain ⟨-, as, bs, hkeys, has⟩ := List.find?_eq_some_iff_append.mp h
  have hasc := m.ascending
  rw [hkeys] at hasc hj
  rcases List.mem_append.mp hj with hj | hj
  · have := has j hj
    simp [hp] at this
  · rcases List.mem_cons.mp hj with rfl | hj
    · exact le_rfl
    · exact ((List.pairwise_cons.mp (List.pairwise_append.mp hasc).2.1).1 j hj).le

def empty (f : κ → ν) : KeyedMap κ ν := ⟨[], List.Pairwise.nil, f⟩

/-- `k` at its place in an ascending list, once. -/
def insertKey (k : κ) : List κ → List κ
  | [] => [k]
  | j :: js => if k < j then k :: j :: js else if k = j then j :: js else j :: insertKey k js

theorem mem_insertKey {j k : κ} {ks : List κ} : j ∈ insertKey k ks ↔ j = k ∨ j ∈ ks := by
  induction ks with
  | nil => simp [insertKey]
  | cons i is ih =>
      unfold insertKey
      split_ifs with hlt heq
      · rw [List.mem_cons]
      · simp [heq]
      · rw [List.mem_cons, ih, List.mem_cons, or_left_comm]

theorem insertKey_ascending (k : κ) {ks : List κ} (h : ks.Pairwise (· < ·)) :
    (insertKey k ks).Pairwise (· < ·) := by
  induction ks with
  | nil => exact List.pairwise_singleton _ k
  | cons i is ih =>
      obtain ⟨hhead, htail⟩ := List.pairwise_cons.mp h
      unfold insertKey
      split_ifs with hlt heq
      · refine List.pairwise_cons.mpr ⟨fun j hj => ?_, h⟩
        rcases List.mem_cons.mp hj with rfl | hj
        · exact hlt
        · exact hlt.trans (hhead j hj)
      · exact h
      · refine List.pairwise_cons.mpr ⟨fun j hj => ?_, ih htail⟩
        rcases mem_insertKey.mp hj with rfl | hj
        · exact lt_of_le_of_ne (not_lt.mp hlt) (Ne.symm heq)
        · exact hhead j hj

/-- `m[k] = v`. -/
def insert (m : KeyedMap κ ν) (k : κ) (v : ν) : KeyedMap κ ν :=
  ⟨insertKey k m.keys, insertKey_ascending k m.ascending, Function.update m.val k v⟩

@[simp] theorem mem_insert_keys {m : KeyedMap κ ν} {j k : κ} {v : ν} :
    j ∈ (m.insert k v).keys ↔ j = k ∨ j ∈ m.keys := mem_insertKey

theorem insertKey_length_le (k : κ) (ks : List κ) : (insertKey k ks).length ≤ ks.length + 1 := by
  induction ks with
  | nil => exact le_rfl
  | cons j js ih =>
      unfold insertKey
      split_ifs
      · exact le_rfl
      · exact Nat.le_succ _
      · exact Nat.succ_le_succ ih

@[simp] theorem insert_val_self (m : KeyedMap κ ν) (k : κ) (v : ν) : (m.insert k v).val k = v := by
  simp [insert]

theorem insert_val_of_ne (m : KeyedMap κ ν) {j k : κ} (h : j ≠ k) (v : ν) :
    (m.insert k v).val j = m.val j := by
  simp [insert, h]

/-- What a lookup through a subscript leaves behind: a missing key is added with the
value `d`. -/
def subscript (m : KeyedMap κ ν) (k : κ) (d : ν) : KeyedMap κ ν :=
  if k ∈ m.keys then m else m.insert k d

theorem subscript_of_mem {m : KeyedMap κ ν} {k : κ} (h : k ∈ m.keys) (d : ν) :
    m.subscript k d = m := if_pos h

theorem subscript_of_notMem {m : KeyedMap κ ν} {k : κ} (h : k ∉ m.keys) (d : ν) :
    m.subscript k d = m.insert k d := if_neg h

/-- What holds of the new entry and of all the old ones holds of all. -/
theorem forall_insert {P : κ → ν → Prop} {m : KeyedMap κ ν} {k : κ} {v : ν} (hv : P k v)
    (hm : ∀ j ∈ m.keys, P j (m.val j)) : ∀ j ∈ (m.insert k v).keys, P j ((m.insert k v).val j) := by
  intro j hj
  by_cases h : j = k
  · subst h
    rwa [insert_val_self]
  · rw [insert_val_of_ne m h]
    exact hm j ((mem_insert_keys.mp hj).resolve_left h)

def insertAll (m : KeyedMap κ ν) (es : List (κ × ν)) : KeyedMap κ ν :=
  es.foldl (fun m e => m.insert e.1 e.2) m

@[simp] theorem insertAll_nil (m : KeyedMap κ ν) : m.insertAll [] = m := rfl

@[simp] theorem insertAll_cons (m : KeyedMap κ ν) (e : κ × ν) (es : List (κ × ν)) :
    m.insertAll (e :: es) = (m.insert e.1 e.2).insertAll es := rfl

theorem insertAll_append (m : KeyedMap κ ν) (es fs : List (κ × ν)) :
    m.insertAll (es ++ fs) = (m.insertAll es).insertAll fs := List.foldl_append

theorem mem_insertAll_keys {m : KeyedMap κ ν} {es : List (κ × ν)} {k : κ} :
    k ∈ (m.insertAll es).keys ↔ k ∈ m.keys ∨ k ∈ es.map Prod.fst := by
  induction es generalizing m with
  | nil => simp
  | cons e es ih =>
      rw [insertAll_cons, ih, mem_insert_keys, List.map_cons, List.mem_cons, or_assoc,
        or_left_comm]

theorem insertAll_val_of_notMem {es : List (κ × ν)} {k : κ} (h : k ∉ es.map Prod.fst)
    (m : KeyedMap κ ν) : (m.insertAll es).val k = m.val k := by
  induction es generalizing m with
  | nil => rfl
  | cons e es ih =>
      rw [List.map_cons, List.mem_cons, not_or] at h
      rw [insertAll_cons, ih h.2, insert_val_of_ne m h.1]

/-- The value at an assigned key comes from an assignment to it. -/
theorem insertAll_val_mem {es : List (κ × ν)} {k : κ} (h : k ∈ es.map Prod.fst)
    (m : KeyedMap κ ν) : (k, (m.insertAll es).val k) ∈ es := by
  induction es generalizing m with
  | nil => exact absurd h List.not_mem_nil
  | cons e es ih =>
      rw [insertAll_cons]
      by_cases htail : k ∈ es.map Prod.fst
      · exact List.mem_cons_of_mem e (ih htail _)
      · obtain rfl : k = e.1 := by simpa [htail] using h
        rw [insertAll_val_of_notMem htail, insert_val_self]
        exact List.mem_cons_self

theorem insertAll_mem {es : List (κ × ν)} {k : κ} (h : k ∈ es.map Prod.fst) (m : KeyedMap κ ν) :
    k ∈ (m.insertAll es).keys ∧ (k, (m.insertAll es).val k) ∈ es :=
  ⟨mem_insertAll_keys.mpr (Or.inr h), insertAll_val_mem h m⟩

/-- What a loop over the map meets. -/
def entries (m : KeyedMap κ ν) : List (κ × ν) := m.keys.map fun k => (k, m.val k)

@[simp] theorem entries_keys (m : KeyedMap κ ν) : m.entries.map Prod.fst = m.keys := by
  rw [entries, List.map_map]
  exact List.map_id m.keys

theorem mem_entries {m : KeyedMap κ ν} {e : κ × ν} : e ∈ m.entries ↔ e.1 ∈ m.keys ∧ m.val e.1 = e.2 := by
  rw [entries, List.mem_map]
  constructor
  · rintro ⟨k, hk, rfl⟩
    exact ⟨hk, rfl⟩
  · intro h
    exact ⟨e.1, h.1, by rw [h.2]⟩

theorem entries_eq {m m' : KeyedMap κ ν} (hkeys : ∀ k, k ∈ m'.keys ↔ k ∈ m.keys)
    (hval : ∀ k ∈ m.keys, m'.val k = m.val k) : m'.entries = m.entries := by
  have hsame : m'.keys = m.keys := m'.ascending.eq_of_mem_iff m.ascending fun k => hkeys k
  rw [entries, entries, hsame]
  exact List.map_congr_left fun k hk => by rw [hval k hk]

/-- Assigning the entries of a map one after the other builds it again. -/
theorem insertAll_entries (f : κ → ν) (m : KeyedMap κ ν) :
    ((empty f).insertAll m.entries).entries = m.entries := by
  apply entries_eq
  · intro k
    rw [mem_insertAll_keys, entries_keys]
    exact or_iff_right List.not_mem_nil
  · intro k hk
    have hset : k ∈ m.entries.map Prod.fst := by rwa [entries_keys]
    exact (mem_entries.mp (insertAll_val_mem hset (empty f))).2.symm

/-- The entry at `k` goes. -/
def erase (m : KeyedMap κ ν) (k : κ) : KeyedMap κ ν :=
  ⟨m.keys.filter (· ≠ k), m.ascending.filter _, m.val⟩

@[simp] theorem mem_erase_keys {m : KeyedMap κ ν} {j k : κ} :
    j ∈ (m.erase k).keys ↔ j ∈ m.keys ∧ j ≠ k := by
  simp [erase]

@[simp] theorem erase_val (m : KeyedMap κ ν) (k : κ) : (m.erase k).val = m.val := rfl

theorem getLast?_keys_iff {m : KeyedMap κ ν} {k : κ} (hk : k ∈ m.keys) :
    m.keys.getLast? = some k ↔ ∀ j ∈ m.keys, j ≤ k := by
  have hasc := m.ascending
  rcases List.eq_nil_or_concat m.keys with hnil | ⟨ks, last, hkeys⟩
  · rw [hnil] at hk
    exact absurd hk List.not_mem_nil
  · rw [hkeys, List.concat_eq_append] at hasc hk ⊢
    rw [List.getLast?_concat, Option.some.injEq]
    have hlast : ∀ j ∈ ks ++ [last], j ≤ last := by
      intro j hj
      rcases List.mem_append.mp hj with hj | hj
      · exact ((List.pairwise_append.mp hasc).2.2 j hj last (List.mem_singleton_self last)).le
      · exact (List.mem_singleton.mp hj).le
    constructor
    · rintro rfl
      exact hlast
    · intro hmax
      exact le_antisymm (hmax last (by simp)) (hlast k hk)

theorem mem_drop_keys_iff (m : KeyedMap κ ν) (n : ℕ) (k : κ) :
    k ∈ m.keys.drop n ↔ k ∈ m.keys ∧ k ∉ m.keys.take n := by
  have hnodup := m.nodup
  rw [← List.take_append_drop n m.keys, List.nodup_append] at hnodup
  constructor
  · intro h
    exact ⟨List.mem_of_mem_drop h, fun htake => hnodup.2.2 k htake k h rfl⟩
  · rintro ⟨hk, htake⟩
    rw [← List.take_append_drop n m.keys] at hk
    exact (List.mem_append.mp hk).resolve_left htake

/-- The keys behind a place bound the ones before it. -/
theorem forall_drop_iff (m : KeyedMap κ ν) {n : ℕ} (hn : n < m.keys.length) (k : κ) :
    (∀ j ∈ m.keys.drop n, j ≤ k) ↔ ∀ j ∈ m.keys, j ≤ k := by
  constructor
  · intro h j hj
    have hasc := m.ascending
    rw [← List.take_append_drop n m.keys] at hj hasc
    rcases List.mem_append.mp hj with hj | hj
    · have hnext : m.keys[n] ∈ m.keys.drop n := by
        rw [List.drop_eq_getElem_cons hn]
        exact List.mem_cons_self
      exact ((List.pairwise_append.mp hasc).2.2 j hj _ hnext).le.trans (h _ hnext)
    · exact h j hj
  · intro h j hj
    exact h j (List.mem_of_mem_drop hj)

/-- The same keys with other values. -/
def map {μ : Type} (g : ν → μ) (m : KeyedMap κ ν) : KeyedMap κ μ := ⟨m.keys, m.ascending, g ∘ m.val⟩

@[simp] theorem map_keys {μ : Type} (g : ν → μ) (m : KeyedMap κ ν) : (m.map g).keys = m.keys := rfl

@[simp] theorem map_val {μ : Type} (g : ν → μ) (m : KeyedMap κ ν) (k : κ) :
    (m.map g).val k = g (m.val k) := rfl

end KeyedMap
