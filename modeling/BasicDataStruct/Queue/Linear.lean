import Mathlib.Data.List.TakeDrop

namespace linear_queue

/-- A queue in an array that is filled from the front: the elements between `write_idx`
and `read_idx` wait, those before `write_idx` are gone. -/
structure Buffer (α : Type) where
  cells : List α
  read_idx : Nat
  write_idx : Nat

variable {α : Type} {capacity : Nat} {b : Buffer α} {data : List α} {n : Nat}

/-- The elements that wait. -/
def Buffer.pending (b : Buffer α) : List α := (b.cells.take b.read_idx).drop b.write_idx

/-- Store elements behind those that wait. -/
def Buffer.put (b : Buffer α) (data : List α) : Buffer α where
  cells := b.cells.take b.read_idx ++ data ++ b.cells.drop (b.read_idx + data.length)
  read_idx := b.read_idx + data.length
  write_idx := b.write_idx

/-- Give up the first `n` elements that wait. -/
def Buffer.skip (b : Buffer α) (n : Nat) : Buffer α := { b with write_idx := b.write_idx + n }

/-- Go back to the front of the array. -/
def Buffer.restart (b : Buffer α) : Buffer α := { b with read_idx := 0, write_idx := 0 }

/-- The indices are in order and inside the array. -/
structure Buffer.Valid (capacity : Nat) (b : Buffer α) : Prop where
  length_cells : b.cells.length = capacity
  write_le : b.write_idx ≤ b.read_idx
  read_le : b.read_idx ≤ capacity

section

variable (hb : b.Valid capacity)
include hb

theorem Buffer.Valid.length_pending : b.pending.length = b.read_idx - b.write_idx := by
  have hlength := hb.length_cells
  have hread := hb.read_le
  rw [pending, List.length_drop, List.length_take]
  omega

theorem Buffer.Valid.pending_eq_nil_iff : b.pending = [] ↔ b.read_idx ≤ b.write_idx := by
  rw [← List.length_eq_zero_iff, hb.length_pending]
  omega

theorem Buffer.Valid.put (hroom : data.length ≤ capacity - b.read_idx) : (b.put data).Valid capacity := by
  have hlength := hb.length_cells
  have hwrite := hb.write_le
  have hread := hb.read_le
  refine ⟨?_, ?_, ?_⟩
  · simp only [Buffer.put, List.length_append, List.length_take, List.length_drop]
    omega
  · simp only [Buffer.put]
    omega
  · simp only [Buffer.put]
    omega

/-- What is stored waits behind what waited before. -/
theorem Buffer.Valid.pending_put (data : List α) : (b.put data).pending = b.pending ++ data := by
  have hlength : (b.cells.take b.read_idx).length = b.read_idx := by
    rw [List.length_take, hb.length_cells, Nat.min_eq_left hb.read_le]
  have htake : (b.put data).cells.take (b.put data).read_idx = b.cells.take b.read_idx ++ data := by
    exact List.take_left' (by rw [List.length_append, hlength, Buffer.put])
  rw [pending, htake, List.drop_append_of_le_length (by rw [hlength]; exact hb.write_le)]
  rfl

theorem Buffer.Valid.skip (hn : n ≤ b.read_idx - b.write_idx) : (b.skip n).Valid capacity := by
  have hwrite := hb.write_le
  refine ⟨hb.length_cells, ?_, hb.read_le⟩
  simp only [Buffer.skip]
  omega

end

theorem Buffer.pending_skip (b : Buffer α) (n : Nat) : (b.skip n).pending = b.pending.drop n := by
  simp only [pending, skip, List.drop_drop]

theorem Buffer.Valid.restart (hb : b.Valid capacity) : b.restart.Valid capacity :=
  ⟨hb.length_cells, Nat.le_refl 0, Nat.zero_le capacity⟩

@[simp] theorem Buffer.pending_restart (b : Buffer α) : b.restart.pending = [] := by simp [pending, restart]

end linear_queue
