import BasicDataStruct.LinkedList.HasLoop

open machine machine.Exec orbit

namespace basic_data_struct.linked_list

variable {n a : Nat}

/-- The program answers the question whether the chain is cyclic: it terminates,
leaves the heap alone and returns 1 for a cyclic chain and 0 for one that ends. -/
def Decides (prog : Nat → Ptr → Prog Int32) (h : Heap node) (head : Ptr) : Prop :=
  ∃ r, (∃ n, ∀ fuel, n < fuel → (prog fuel head).run h = .ok (r, h)) ∧
    (r = 1 ∧ Cyclic h head ∨ r = 0 ∧ ¬ Cyclic h head)

section

variable {h : Heap node} {head : Ptr}

/-- The fast pointer makes two steps, also where the first one ends the chain. -/
theorem run_twoSteps (hclosed : Closed h) (hhead : Valid h head) (hn : chain h head n ≠ none) :
    (twoSteps (chain h head n)).run h = .ok (chain h head (n + 2), h) := by
  obtain ⟨v, hload, hnext⟩ := run_load_chain hclosed hhead hn
  unfold twoSteps
  rw [run_bind_of_ok hload, hnext]
  by_cases hend : chain h head (n + 1) = none
  · rw [if_neg (not_not.mpr hend), run_pure, hend, chain_eq_none_of_le (Nat.le_succ (n + 1)) hend]
  · obtain ⟨w, hload', hnext'⟩ := run_load_chain hclosed hhead hend
    rw [if_pos hend, run_bind_of_ok hload', run_pure, hnext']

/-- A round of the chase: the slow pointer makes one step and the fast one two. -/
theorem run_has_loop2_body (hclosed : Closed h) (hhead : Valid h head) (hn : chain h head (2 * n) ≠ none) :
    (has_loop2_body (chain h head n, chain h head (2 * n))).run h =
      if chain h head (n + 1) ≠ none ∧ chain h head (n + 1) = chain h head (2 * (n + 1)) then .ok (.inr 1, h)
      else .ok (.inl (chain h head (n + 1), chain h head (2 * (n + 1))), h) := by
  have hslow : chain h head n ≠ none := chain_ne_none_of_le (by omega) hn
  obtain ⟨v, hload, hnext⟩ := run_load_chain hclosed hhead hslow
  unfold has_loop2_body
  dsimp only
  rw [if_pos ⟨hslow, hn⟩, run_bind_of_ok hload, run_bind_of_ok (run_twoSteps hclosed hhead hn), hnext, run_ite]
  rfl

theorem run_has_loop2_body_end (hn : chain h head (2 * n) = none) :
    (has_loop2_body (chain h head n, chain h head (2 * n))).run h = .ok (.inr 0, h) := by
  unfold has_loop2_body
  dsimp only
  rw [if_neg (fun hboth => hboth.2 hn), run_pure]

/-- The chase along a cyclic chain ends at the first meeting point. -/
theorem run_has_loop2_of_cyclic (hclosed : Closed h) (hhead : Valid h head) (hcyc : Cyclic h head) :
    ∃ n, ∀ fuel, n < fuel → (has_loop2 fuel head).run h = .ok (1, h) := by
  obtain ⟨len, i, hne, hr⟩ := hcyc.exists_length
  have hlive := chain_ne_none_of_rho hr hne
  have hmeets : ∃ n, chain h head (n + 1) = chain h head (2 * (n + 1)) := by
    obtain ⟨meet, hpos, hmeet⟩ := exists_meet hr.pos hr.closes
    obtain ⟨n, rfl⟩ := Nat.exists_eq_succ_of_ne_zero hpos.ne'
    exact ⟨n, hmeet.symm⟩
  refine ⟨Nat.find hmeets, fun fuel => run_loop_walk (fun n => (chain h head n, chain h head (2 * n)))
    (fun n hn => ?_) ?_⟩
  · rw [run_has_loop2_body hclosed hhead (hlive (2 * n)), if_neg fun hboth => Nat.find_min hmeets hn hboth.2]
  · rw [run_has_loop2_body hclosed hhead (hlive _), if_pos ⟨hlive _, Nat.find_spec hmeets⟩]

/-- The chase along a chain that ends: the pointers do not meet before `NULL`. -/
theorem run_has_loop2_of_not_cyclic (hclosed : Closed h) (hhead : Valid h head) (hcyc : ¬ Cyclic h head) :
    ∃ n, ∀ fuel, n < fuel → (has_loop2 fuel head).run h = .ok (0, h) := by
  obtain ⟨last, hlast⟩ := exists_chain_eq_none hclosed hhead hcyc
  have hend : ∃ n, chain h head (2 * n) = none := ⟨last, chain_eq_none_of_le (by omega) hlast⟩
  refine ⟨Nat.find hend, fun fuel => run_loop_walk (fun n => (chain h head n, chain h head (2 * n)))
    (fun n hn => ?_) (run_has_loop2_body_end (Nat.find_spec hend))⟩
  rw [run_has_loop2_body hclosed hhead (Nat.find_min hend hn), if_neg]
  intro hboth
  exact chain_injective_of_not_cyclic hcyc (by omega) (hboth.2 ▸ hboth.1) hboth.2

/-- The two-speed chase decides cyclicity on every heap. -/
theorem has_loop2_decides (hclosed : Closed h) (hhead : Valid h head) : Decides has_loop2 h head := by
  by_cases hcyc : Cyclic h head
  · exact ⟨1, run_has_loop2_of_cyclic hclosed hhead hcyc, .inl ⟨rfl, hcyc⟩⟩
  · exact ⟨0, run_has_loop2_of_not_cyclic hclosed hhead hcyc, .inr ⟨rfl, hcyc⟩⟩

/-- The double walk decides cyclicity unless its counters wrap around together. -/
theorem has_loop_decides_iff (hclosed : Closed h) (hhead : Valid h head) :
    Decides has_loop h head ↔ ∀ k, CycleLength h head k → ¬ 2 ^ 32 ∣ k := by
  constructor
  · intro hdec k hlen hk
    obtain ⟨r, ⟨n, hrun⟩, _⟩ := hdec
    have hok := hrun (n + 1) (Nat.lt_succ_self n)
    rw [run_has_loop_diverges hclosed hhead hlen hk] at hok
    simp at hok
  · intro hlen
    by_cases hcyc : Cyclic h head
    · obtain ⟨k, hk⟩ := hcyc.exists_length
      exact ⟨1, run_has_loop_of_cycleLength hclosed hhead hk (hlen k hk), .inl ⟨rfl, hcyc⟩⟩
    · exact ⟨0, run_has_loop_of_not_cyclic hclosed hhead hcyc, .inr ⟨rfl, hcyc⟩⟩

end

/-- Both detectors terminate with the right answer, and so with the same answer,
exactly when the length of the cycle, if there is one, is not a multiple of `2 ^ 32`. -/
theorem detectors_decide_iff (h : Heap node) (head : Ptr) (hclosed : Closed h) (hhead : Valid h head) :
    (Decides has_loop h head ∧ Decides has_loop2 h head) ↔ ∀ k, CycleLength h head k → ¬ 2 ^ 32 ∣ k := by
  rw [has_loop_decides_iff hclosed hhead]
  exact and_iff_left (has_loop2_decides hclosed hhead)

/-- A ring of `n` nodes at the addresses below `n`. -/
def ring (n : Nat) : Heap node where
  cells a := if a < n then some ⟨0, some ((a + 1) % n)⟩ else none
  next := n
  raw _ := default
  fresh a ha := if_neg (by omega)

theorem ring_cells (ha : a < n) : (ring n).cells a = some ⟨0, some ((a + 1) % n)⟩ := if_pos ha

theorem ring_valid (ha : a < n) : Valid (ring n) (some a) := by
  intro b hb
  cases hb
  exact ⟨_, ring_cells ha⟩

theorem ring_closed (n : Nat) : Closed (ring n) := by
  intro a v hv
  have ha : a < n := Heap.lt_next_of_some hv
  rw [ring_cells ha] at hv
  cases hv
  exact ring_valid (Nat.mod_lt _ (by omega))

theorem chain_ring (hn : 0 < n) (i : Nat) : chain (ring n) (some 0) i = some (i % n) := by
  induction i with
  | zero => simp
  | succ i ih => rw [chain_succ, ih, step_of_cell (ring_cells (Nat.mod_lt i hn)), Nat.mod_add_mod]

theorem ring_cycleLength (hn : 0 < n) : CycleLength (ring n) (some 0) n := by
  refine ⟨0, by simp, hn, ?_, fun a b hab hb heq => ?_⟩
  · exact (chain_ring hn (0 + n)).trans (by simp)
  · have hvals := (chain_ring hn a).symm.trans (heq.trans (chain_ring hn b))
    rw [Nat.mod_eq_of_lt (by omega), Nat.mod_eq_of_lt (by omega), Option.some_inj] at hvals
    omega

/-- The condition holds of a ring of three nodes, and both detectors find its loop. -/
theorem detectors_decide_ring_three :
    Decides has_loop (ring 3) (some 0) ∧ Decides has_loop2 (ring 3) (some 0) := by
  refine (detectors_decide_iff (ring 3) (some 0) (ring_closed 3) (ring_valid (by omega))).mpr ?_
  intro k hlen hk
  have heq : k = 3 := hlen.unique (ring_cycleLength (by omega))
  omega

/-- On a ring of `2 ^ 32` nodes `has_loop` does not terminate: when the outer walk
comes back to the head, both counters show 1 again. -/
theorem has_loop_ring_diverges :
    Closed (ring (2 ^ 32)) ∧ Valid (ring (2 ^ 32)) (some 0) ∧ Cyclic (ring (2 ^ 32)) (some 0) ∧
      (∀ fuel, (has_loop fuel (some 0)).run (ring (2 ^ 32)) = .error .fuel) ∧
      ¬ Decides has_loop (ring (2 ^ 32)) (some 0) := by
  have hclosed := ring_closed (2 ^ 32)
  have hhead := ring_valid (Nat.two_pow_pos 32)
  have hlen := ring_cycleLength (Nat.two_pow_pos 32)
  refine ⟨hclosed, hhead, hlen.cyclic, ?_, ?_⟩
  · exact run_has_loop_diverges hclosed hhead hlen (Nat.dvd_refl _)
  · intro hdec
    exact (has_loop_decides_iff hclosed hhead).mp hdec _ hlen (Nat.dvd_refl _)

end basic_data_struct.linked_list
