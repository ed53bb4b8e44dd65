import RwModbus.Library.Runs

/-!
# Vectors with a capacity

The elements of a vector lie in one block of memory. Appending to a full vector
moves all of them to a new block, and so does reserving more than there is. A loop
that appends an element in some of its rounds leaves the elements where they are
exactly if there is room for all it appends.
-/

/-- The sizes of new blocks. -/
structure Growth where
  reserved : ℕ → ℕ
  le_reserved : ∀ n, n ≤ reserved n
  grown : ℕ → ℕ
  lt_grown : ∀ n, n < grown n

/-- `block` counts the blocks the elements have been moved to. -/
structure GrowVec (α : Type) where
  elems : List α
  capacity : ℕ
  fits : elems.length ≤ capacity
  block : ℕ := 0

namespace GrowVec
variable {α β : Type} (G : Growth)

def size (v : GrowVec α) : ℕ := v.elems.length

def room (v : GrowVec α) : ℕ := v.capacity - v.size

def Full (v : GrowVec α) : Prop := v.size = v.capacity

instance (v : GrowVec α) : Decidable v.Full := inferInstanceAs (Decidable (v.size = v.capacity))

theorem full_iff {v : GrowVec α} : v.Full ↔ v.room = 0 := by
  have h : v.size ≤ v.capacity := v.fits
  unfold Full room
  omega

def reserve (v : GrowVec α) (n : ℕ) : GrowVec α :=
  if h : v.capacity < n then
    { v with
      capacity := G.reserved n
      fits := (v.fits.trans h.le).trans (G.le_reserved n)
      block := v.block + 1 }
  else v

@[simp] theorem reserve_elems (v : GrowVec α) (n : ℕ) : (v.reserve G n).elems = v.elems := by
  unfold reserve
  split_ifs <;> rfl

theorem reserve_room (v : GrowVec α) (n : ℕ) : (v.reserve G n).room =
    if v.capacity < n then G.reserved n - v.size else v.room := by
  unfold reserve
  split_ifs <;> rfl

def emplaceBack (v : GrowVec α) (x : α) : GrowVec α :=
  if h : v.Full then
    { elems := v.elems ++ [x]
      capacity := G.grown v.capacity
      fits := by
        have hlt := G.lt_grown v.capacity
        rw [Full, size] at h
        rw [List.length_append, List.length_singleton]
        omega
      block := v.block + 1 }
  else
    { v with
      elems := v.elems ++ [x]
      fits := by
        have hle := v.fits
        rw [Full, size] at h
        rw [List.length_append, List.length_singleton]
        omega }

@[simp] theorem emplaceBack_elems (v : GrowVec α) (x : α) :
    (v.emplaceBack G x).elems = v.elems ++ [x] := by
  unfold emplaceBack
  split_ifs <;> rfl

theorem emplaceBack_room {v : GrowVec α} (h : ¬ v.Full) (x : α) :
    (v.emplaceBack G x).room = v.room - 1 := by
  simp [emplaceBack, dif_neg h, room, size, Nat.sub_add_eq]

theorem emplaceBack_capacity {v : GrowVec α} (h : ¬ v.Full) (x : α) :
    (v.emplaceBack G x).capacity = v.capacity := by
  simp [emplaceBack, dif_neg h]

/-- The elements go, their block stays. -/
def clear (v : GrowVec α) : GrowVec α := { v with elems := [], fits := Nat.zero_le _ }

theorem emplaceBack_block (v : GrowVec α) (x : α) :
    (v.emplaceBack G x).block = if v.Full then v.block + 1 else v.block := by
  unfold emplaceBack
  split_ifs <;> rfl

/-- One round: `f` tells what it appends. -/
def round (f : β → Option α) (v : GrowVec α) (b : β) : GrowVec α :=
  match f b with
  | some x => v.emplaceBack G x
  | none => v

variable {G} {f : β → Option α} {v : GrowVec α} {b : β}

theorem round_some {x : α} (h : f b = some x) : v.round G f b = v.emplaceBack G x := by
  simp only [round, h]

theorem round_none (h : f b = none) : v.round G f b = v := by
  simp only [round, h]

variable (G f v) in
/-- No round appends to a full vector. -/
def NeverFull (bs : List β) : Prop :=
  Runs.Along (round G f) (fun v b => (f b).isSome → ¬ v.Full) v bs

theorem run_elems (bs : List β) :
    (Runs.run (round G f) v bs).elems = v.elems ++ bs.filterMap f := by
  induction bs generalizing v with
  | nil => simp
  | cons b bs ih =>
      rw [Runs.run_cons, ih]
      cases hb : f b with
      | none => rw [round_none hb, List.filterMap_cons_none hb]
      | some x =>
          rw [round_some hb, List.filterMap_cons_some hb, emplaceBack_elems, List.append_assoc,
            List.singleton_append]

/-- The bound is exact: one element more than there is room for meets a full vector. -/
theorem neverFull_iff (bs : List β) : NeverFull G f v bs ↔ (bs.filterMap f).length ≤ v.room := by
  unfold NeverFull
  induction bs generalizing v with
  | nil => simp [Runs.Along]
  | cons b bs ih =>
      rw [Runs.Along, ih]
      cases hb : f b with
      | none => simp [round_none hb, hb]
      | some x =>
          rw [round_some hb, List.filterMap_cons_some hb, List.length_cons]
          have hroom : ¬ v.Full ↔ v.room ≠ 0 := full_iff.not
          constructor
          · rintro ⟨hfull, hle⟩
            have hfull := hfull rfl
            rw [emplaceBack_room G hfull] at hle
            have := hroom.mp hfull
            omega
          · intro hle
            have hfull : ¬ v.Full := hroom.mpr (by omega)
            refine ⟨fun _ => hfull, ?_⟩
            rw [emplaceBack_room G hfull]
            omega

theorem round_block (hfull : (f b).isSome → ¬ v.Full) : (v.round G f b).block = v.block := by
  cases hb : f b with
  | none => rw [round_none hb]
  | some x =>
      rw [round_some hb, emplaceBack_block, if_neg]
      exact hfull (by rw [hb]; rfl)

/-- The elements stay in their block as long as no round meets a full vector. -/
theorem NeverFull.block {bs : List β} (h : NeverFull G f v bs) :
    (Runs.run (round G f) v bs).block = v.block :=
  Runs.Along.invariant (I := fun w => w.block = v.block)
    (fun _ _ hw hfull => (round_block hfull).trans hw) h rfl

theorem NeverFull.of_append {bs cs : List β} (h : NeverFull G f v (bs ++ cs)) :
    NeverFull G f v bs := (Runs.along_append.mp h).1

end GrowVec
