import Mathlib.Data.List.Basic

namespace memory

variable {α : Type}

/-- The cells from an offset on. -/
def slice (buf : Nat → α) : (off len : Nat) → List α
  | _, 0 => []
  | off, len + 1 => buf off :: slice buf (off + 1) len

/-- The memory after the cells from an offset on have been written. -/
def fill (buf : Nat → α) : Nat → List α → Nat → α
  | _, [] => buf
  | off, b :: bs => fill (Function.update buf off b) (off + 1) bs

variable {buf buf' : Nat → α} {off len i : Nat} {bs : List α}

@[simp] theorem length_slice : (slice buf off len).length = len := by
  induction len generalizing off with
  | zero => rfl
  | succ len ih => rw [slice, List.length_cons, ih]

theorem slice_add (m n : Nat) : slice buf off (m + n) = slice buf off m ++ slice buf (off + m) n := by
  induction m generalizing off with
  | zero => rw [Nat.zero_add, slice, List.nil_append, Nat.add_zero]
  | succ m ih =>
    rw [Nat.succ_add, slice, slice, List.cons_append, ih, Nat.add_right_comm]
    rfl

theorem slice_congr (h : ∀ i, off ≤ i → i < off + len → buf i = buf' i) : slice buf off len = slice buf' off len := by
  induction len generalizing off with
  | zero => rfl
  | succ len ih =>
    rw [slice, slice, h off (Nat.le_refl off) (by omega), ih fun i hlo hhi => h i (by omega) (by omega)]

theorem take_slice (h : i ≤ len) : (slice buf off len).take i = slice buf off i := by
  rw [← Nat.add_sub_cancel' h, slice_add]
  exact List.take_left' length_slice

theorem drop_slice (h : i ≤ len) : (slice buf off len).drop i = slice buf (off + i) (len - i) := by
  conv_lhs => rw [← Nat.add_sub_cancel' h, slice_add]
  exact List.drop_left' length_slice

/-- A write changes no cell outside of its range. -/
theorem fill_of_lt (h : i < off) : fill buf off bs i = buf i := by
  induction bs generalizing buf off with
  | nil => rfl
  | cons b bs ih => rw [fill, ih (by omega), Function.update_of_ne (by omega)]

theorem fill_of_ge (h : off + bs.length ≤ i) : fill buf off bs i = buf i := by
  induction bs generalizing buf off with
  | nil => rfl
  | cons b bs ih =>
    rw [List.length_cons] at h
    rw [fill, ih (by omega), Function.update_of_ne (by omega)]

theorem slice_fill_self : slice (fill buf off bs) off bs.length = bs := by
  induction bs generalizing buf off with
  | nil => rfl
  | cons b bs ih => rw [List.length_cons, slice, fill, ih, fill_of_lt (Nat.lt_succ_self off), Function.update_self]

theorem slice_fill_of_le (h : off + len ≤ i) : slice (fill buf i bs) off len = slice buf off len :=
  slice_congr fun _ _ hhi => fill_of_lt (by omega)

theorem slice_fill_of_ge (h : i + bs.length ≤ off) : slice (fill buf i bs) off len = slice buf off len :=
  slice_congr fun _ hlo _ => fill_of_ge (by omega)

theorem fill_append (cs : List α) : fill buf off (bs ++ cs) = fill (fill buf off bs) (off + bs.length) cs := by
  induction bs generalizing buf off with
  | nil => rfl
  | cons b bs ih => rw [List.cons_append, fill, fill, ih, List.length_cons, Nat.add_right_comm, Nat.add_assoc]

theorem getElem_slice (h : i < len) : (slice buf off len)[i]? = some (buf (off + i)) := by
  induction len generalizing off i with
  | zero => exact absurd h (Nat.not_lt_zero i)
  | succ len ih =>
    cases i with
    | zero => rfl
    | succ i =>
      rw [slice, List.getElem?_cons_succ, ih (Nat.lt_of_succ_lt_succ h), Nat.add_right_comm]
      rfl

theorem fill_add (h : i < bs.length) : fill buf off bs (off + i) = bs[i] := by
  have hget : (slice (fill buf off bs) off bs.length)[i]? = some (fill buf off bs (off + i)) := getElem_slice h
  rw [slice_fill_self, List.getElem?_eq_getElem h] at hget
  exact (Option.some.inj hget).symm

/-- A cell after a write. -/
theorem fill_apply : fill buf off bs i = (if off ≤ i then bs[i - off]? else none).getD (buf i) := by
  split
  case isFalse h => exact fill_of_lt (Nat.not_le.mp h)
  case isTrue h =>
    rcases Nat.lt_or_ge (i - off) bs.length with hlt | hge
    · have hcell : fill buf off bs (off + (i - off)) = bs[i - off] := fill_add hlt
      rw [List.getElem?_eq_getElem hlt, ← hcell, Nat.add_sub_cancel' h]
      rfl
    · rw [List.getElem?_eq_none hge, fill_of_ge (by omega)]
      rfl

end memory
