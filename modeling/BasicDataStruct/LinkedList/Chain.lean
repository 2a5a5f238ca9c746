import Mathlib.Data.Finset.Card
import BasicDataStruct.LinkedList.Loop
import BasicDataStruct.Orbit.Rho

open machine machine.Exec orbit

namespace basic_data_struct.linked_list

variable {m n i k : Nat}

/-- One `next` step of the chain; `NULL` stays `NULL`. -/
def step (h : Heap node) (p : Ptr) : Ptr := p.bind fun a => (h.cells a).bind node.next

/-- Where the chain from `head` is after `n` steps. -/
def chain (h : Heap node) (head : Ptr) (n : Nat) : Ptr := (step h)^[n] head

/-- A pointer that is `NULL` or points at a node of the heap. -/
def Valid (h : Heap node) (p : Ptr) : Prop := ∀ a, p = some a → ∃ v, h.cells a = some v

/-- The `next` of every node of the heap is `NULL` or a node of the heap. -/
def Closed (h : Heap node) : Prop := ∀ a v, h.cells a = some v → Valid h v.next

/-- Some node of the chain is reached from itself by one or more steps. -/
def Cyclic (h : Heap node) (head : Ptr) : Prop :=
  ∃ i k, 0 < k ∧ chain h head i ≠ none ∧ chain h head (i + k) = chain h head i

/-- The chain ends in a cycle of `k` nodes. -/
def CycleLength (h : Heap node) (head : Ptr) (k : Nat) : Prop :=
  ∃ i, chain h head i ≠ none ∧ Rho (step h) head i k

@[simp] theorem step_none (h : Heap node) : step h none = none := rfl

theorem step_of_cell {h : Heap node} {a : Nat} {v : node} (ha : h.cells a = some v) :
    step h (some a) = v.next := by
  rw [step, Option.bind_some, ha, Option.bind_some]

section

variable {h : Heap node} {head : Ptr}

@[simp] theorem chain_zero : chain h head 0 = head := rfl

theorem chain_succ (n : Nat) : chain h head (n + 1) = step h (chain h head n) :=
  Function.iterate_succ_apply' (step h) n head

/-- Once the chain has ended it does not start again. -/
theorem chain_eq_none_of_le (hle : m ≤ n) (hm : chain h head m = none) : chain h head n = none := by
  induction n, hle using Nat.le_induction with
  | base => exact hm
  | succ n _ ih => rw [chain_succ, ih, step_none]

theorem chain_ne_none_of_le (hle : m ≤ n) (hn : chain h head n ≠ none) : chain h head m ≠ none :=
  fun hm => hn (chain_eq_none_of_le hle hm)

theorem chain_valid (hclosed : Closed h) (hhead : Valid h head) (n : Nat) : Valid h (chain h head n) := by
  induction n with
  | zero => exact hhead
  | succ n ih =>
    rw [chain_succ]
    cases hp : chain h head n with
    | none => exact fun a ha => by simp at ha
    | some a =>
      obtain ⟨v, hv⟩ := ih a hp
      rw [step_of_cell hv]
      exact hclosed a v hv

/-- Reading `next` through a pointer of the chain makes one step. -/
theorem run_load_chain (hclosed : Closed h) (hhead : Valid h head) (hn : chain h head n ≠ none) :
    ∃ v, (load (chain h head n)).run h = .ok (v, h) ∧ v.next = chain h head (n + 1) := by
  obtain ⟨a, ha⟩ := Option.ne_none_iff_exists'.mp hn
  obtain ⟨v, hv⟩ := chain_valid hclosed hhead n a ha
  refine ⟨v, ?_, ?_⟩
  · rw [ha]
    exact run_load hv
  · rw [chain_succ, ha, step_of_cell hv]

/-- The heap is finite, so a chain that never closes comes to an end. -/
theorem exists_chain_eq_none (hclosed : Closed h) (hhead : Valid h head) (hcyc : ¬ Cyclic h head) :
    ∃ n, chain h head n = none := by
  by_contra hne
  push Not at hne
  have hmaps : ∀ n ∈ Finset.range (h.next + 1), chain h head n ∈ (Finset.range h.next).image some := by
    intro n _
    obtain ⟨a, ha⟩ := Option.ne_none_iff_exists'.mp (hne n)
    obtain ⟨v, hv⟩ := chain_valid hclosed hhead n a ha
    rw [ha]
    exact Finset.mem_image_of_mem some (Finset.mem_range.mpr (Heap.lt_next_of_some hv))
  have hcard : ((Finset.range h.next).image some).card < (Finset.range (h.next + 1)).card := by
    have hle := Finset.card_image_le (s := Finset.range h.next) (f := (some : Nat → Ptr))
    rw [Finset.card_range] at hle ⊢
    omega
  obtain ⟨i, _, j, _, hij, heq⟩ := Finset.exists_ne_map_eq_of_card_lt_of_maps_to hcard hmaps
  rcases Nat.lt_or_gt_of_ne hij with hlt | hlt
  · exact hcyc ⟨i, j - i, by omega, hne i, by rw [Nat.add_sub_cancel' hlt.le, heq]⟩
  · exact hcyc ⟨j, i - j, by omega, hne j, by rw [Nat.add_sub_cancel' hlt.le, heq]⟩

/-- A chain that ends does not meet the same node twice. -/
theorem chain_injective_of_not_cyclic (hcyc : ¬ Cyclic h head) {j : Nat} (hlt : i < j)
    (hj : chain h head j ≠ none) : chain h head i ≠ chain h head j := by
  intro heq
  refine hcyc ⟨i, j - i, by omega, chain_ne_none_of_le hlt.le hj, ?_⟩
  rw [Nat.add_sub_cancel' hlt.le, heq]

/-- A cyclic chain has a cycle length. -/
theorem Cyclic.exists_length (hcyc : Cyclic h head) : ∃ k, CycleLength h head k := by
  obtain ⟨i, k, hk, hne, hclose⟩ := hcyc
  obtain ⟨i', k', hr⟩ := exists_rho hk hclose
  refine ⟨k', i', fun hnone => ?_, hr⟩
  have hfar : i' ≤ i + i' * k := by
    have hmul := Nat.le_mul_of_pos_right i' hk
    omega
  have hback : chain h head (i + i' * k) = chain h head i := iterate_add_mul hclose (Nat.le_refl i) i'
  exact hne (hback ▸ chain_eq_none_of_le hfar hnone)

theorem CycleLength.cyclic (hlen : CycleLength h head k) : Cyclic h head := by
  obtain ⟨i, hne, hr⟩ := hlen
  exact ⟨i, k, hr.pos, hne, hr.closes⟩

/-- A chain has at most one cycle length. -/
theorem CycleLength.unique {k' : Nat} (hlen : CycleLength h head k) (hlen' : CycleLength h head k') : k = k' := by
  obtain ⟨_, _, hr⟩ := hlen
  obtain ⟨_, _, hr'⟩ := hlen'
  exact Nat.le_antisymm (hr.length_le hr') (hr'.length_le hr)

/-- On a cycle the chain never ends. -/
theorem chain_ne_none_of_rho (hr : Rho (step h) head i k) (hne : chain h head i ≠ none) (n : Nat) :
    chain h head n ≠ none := by
  have hfar : n ≤ i + n * k := by
    have hmul := Nat.le_mul_of_pos_right n hr.pos
    omega
  have hback : chain h head (i + n * k) = chain h head i := iterate_add_mul hr.closes (Nat.le_refl i) n
  exact chain_ne_none_of_le hfar (hback ▸ hne)

end

end basic_data_struct.linked_list
