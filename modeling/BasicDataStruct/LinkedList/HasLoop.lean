import BasicDataStruct.Machine.Range
import BasicDataStruct.LinkedList.Chain

open machine machine.Exec orbit

namespace basic_data_struct.linked_list

variable {n l j fuel k : Nat}

section

variable {h : Heap node} {head : Ptr}

/-- The inner loop stops at `cur1` and compares the two counters. -/
theorem run_search_body_here (hl : chain h head l ≠ none) (heq : chain h head l = chain h head n) :
    (search_body (chain h head n) (Int32.ofNat (n + 1)) (chain h head l, Int32.ofNat l)).run h =
      .ok (.inr (decide ((n + 1) % 2 ^ 32 ≠ (l + 1) % 2 ^ 32)), h) := by
  unfold search_body
  dsimp only
  rw [if_neg hl, if_pos heq, ofNat_succ]
  by_cases hpos : (n + 1) % 2 ^ 32 = (l + 1) % 2 ^ 32
  · rw [if_pos ((ofNat_eq_ofNat_iff _ _).mpr hpos), run_pure, decide_eq_false (not_not.mpr hpos)]
  · rw [if_neg (mt (ofNat_eq_ofNat_iff _ _).mp hpos), run_pure, decide_eq_true hpos]

theorem run_has_loop_body_end (fuel : Nat) (pos : Int32) :
    (has_loop_body fuel head (none, pos)).run h = .ok (.inr 0, h) := by
  unfold has_loop_body
  dsimp only
  rw [if_pos rfl, run_pure]

theorem within_has_loop_body (head : Ptr) {fuel' : Nat} (hle : fuel ≤ fuel') (locals : Ptr × Int32) :
    Within (has_loop_body fuel head locals) (has_loop_body fuel' head locals) := by
  unfold has_loop_body
  refine Within.ite _ (Within.refl _) ((within_loop _ hle _).bind fun found => ?_)
  exact Within.refl _

section

variable (hclosed : Closed h) (hhead : Valid h head)
include hclosed hhead

/-- The inner loop goes past a node other than `cur1`. -/
theorem run_search_body_next (pos1 : Int32) (hl : chain h head l ≠ none) (hne : chain h head l ≠ chain h head n) :
    (search_body (chain h head n) pos1 (chain h head l, Int32.ofNat l)).run h =
      .ok (.inl (chain h head (l + 1), Int32.ofNat (l + 1)), h) := by
  obtain ⟨v, hload, hnext⟩ := run_load_chain hclosed hhead hl
  unfold search_body
  dsimp only
  rw [if_neg hl, if_neg hne, run_bind_of_ok hload, run_pure, hnext, ofNat_succ]

section

variable (hn : chain h head n ≠ none) (hj : chain h head j = chain h head n)
  (hfirst : ∀ l, l < j → chain h head l ≠ chain h head n) (hfuel : j < fuel)
include hn hj hfirst hfuel

/-- The inner loop walks from the head to the first occurrence of `cur1` and
compares the two counters there. -/
theorem run_search : (loop (search_body (chain h head n) (Int32.ofNat (n + 1))) fuel (head, 0)).run h =
      .ok (decide ((n + 1) % 2 ^ 32 ≠ (j + 1) % 2 ^ 32), h) := by
  have hlive : ∀ l ≤ j, chain h head l ≠ none := by
    rw [← hj] at hn
    exact fun l hl => chain_ne_none_of_le hl hn
  exact run_loop_walk (fun l => (chain h head l, Int32.ofNat l))
    (fun l hl => run_search_body_next hclosed hhead _ (hlive l hl.le) (hfirst l hl))
    (run_search_body_here (hlive j le_rfl) hj) hfuel

/-- One round of the outer loop on a node whose counters agree. -/
theorem run_has_loop_body_next (hpos : (n + 1) % 2 ^ 32 = (j + 1) % 2 ^ 32) :
    (has_loop_body fuel head (chain h head n, Int32.ofNat n)).run h =
      .ok (.inl (chain h head (n + 1), Int32.ofNat (n + 1)), h) := by
  obtain ⟨v, hload, hnext⟩ := run_load_chain hclosed hhead hn
  have hsearch := run_search hclosed hhead hn hj hfirst hfuel
  rw [decide_eq_false (not_not.mpr hpos)] at hsearch
  unfold has_loop_body
  dsimp only
  rw [if_neg hn, ofNat_succ, run_bind_of_ok hsearch, if_neg Bool.false_ne_true, run_bind_of_ok hload,
    run_pure, hnext]

/-- One round of the outer loop on a node whose counters differ. -/
theorem run_has_loop_body_found (hpos : (n + 1) % 2 ^ 32 ≠ (j + 1) % 2 ^ 32) :
    (has_loop_body fuel head (chain h head n, Int32.ofNat n)).run h = .ok (.inr 1, h) := by
  have hsearch := run_search hclosed hhead hn hj hfirst hfuel
  rw [decide_eq_true hpos] at hsearch
  unfold has_loop_body
  dsimp only
  rw [if_neg hn, ofNat_succ, run_bind_of_ok hsearch, if_pos rfl, run_pure]

end

/-- `has_loop` passes over the nodes before `last`, each of which is met for the
first time, and returns what the round at `last` returns. -/
theorem run_has_loop_of_last {last : Nat} {r : Int32}
    (hbefore : ∀ n, n < last → chain h head n ≠ none)
    (hfirst : ∀ n, n < last → ∀ l, l < n → chain h head l ≠ chain h head n) (hfuel : last < fuel)
    (hlast : (has_loop_body fuel head (chain h head last, Int32.ofNat last)).run h = .ok (.inr r, h)) :
    (has_loop fuel head).run h = .ok (r, h) :=
  run_loop_walk (fun n => (chain h head n, Int32.ofNat n)) (fun n hn =>
    run_has_loop_body_next hclosed hhead (hbefore n hn) rfl (hfirst n hn) (hn.trans hfuel) rfl) hlast hfuel

/-- A chain that ends is found to have no loop. -/
theorem run_has_loop_of_not_cyclic (hcyc : ¬ Cyclic h head) :
    ∃ n, ∀ fuel, n < fuel → (has_loop fuel head).run h = .ok (0, h) := by
  have hend := exists_chain_eq_none hclosed hhead hcyc
  refine ⟨Nat.find hend, fun fuel hfuel => ?_⟩
  have hbefore : ∀ n, n < Nat.find hend → chain h head n ≠ none := fun n hn => Nat.find_min hend hn
  refine run_has_loop_of_last hclosed hhead hbefore ?_ hfuel ?_
  · intro n hn l hl
    exact chain_injective_of_not_cyclic hcyc hl (hbefore n hn)
  · rw [Nat.find_spec hend]
    exact run_has_loop_body_end fuel _

/-- A cycle whose length is not a multiple of `2 ^ 32` is found: the counters
differ when the outer walk comes back to the entry of the cycle. -/
theorem run_has_loop_of_cycleLength (hlen : CycleLength h head k) (hk : ¬ 2 ^ 32 ∣ k) :
    ∃ n, ∀ fuel, n < fuel → (has_loop fuel head).run h = .ok (1, h) := by
  obtain ⟨i, hne, hr⟩ := hlen
  have hlive := chain_ne_none_of_rho hr hne
  have hclose : chain h head i = chain h head (i + k) := hr.closes.symm
  have hpos := hr.pos
  refine ⟨i + k, fun fuel hfuel => ?_⟩
  refine run_has_loop_of_last hclosed hhead (fun n _ => hlive n) (fun n hn l hl => hr.distinct l n hl hn) hfuel ?_
  refine run_has_loop_body_found hclosed hhead (hlive _) hclose ?_ (by omega) ?_
  · intro l hl
    rw [← hclose]
    exact hr.distinct l i hl (by omega)
  · intro hmod
    exact hk (Nat.dvd_of_mod_eq_zero (by omega))

/-- On a cycle whose length is a multiple of `2 ^ 32` the counters agree at every
node for ever, and `has_loop` does not terminate. -/
theorem run_has_loop_diverges (hlen : CycleLength h head k) (hk : 2 ^ 32 ∣ k) (fuel : Nat) :
    (has_loop fuel head).run h = .error .fuel := by
  obtain ⟨i, hne, hr⟩ := hlen
  have hlive := chain_ne_none_of_rho hr hne
  have hagree : ∀ n, ∃ j, chain h head j = chain h head n ∧
      (∀ l, l < j → chain h head l ≠ chain h head n) ∧ (n + 1) % 2 ^ 32 = (j + 1) % 2 ^ 32 := by
    intro n
    by_cases hn : i ≤ n
    · obtain ⟨heq, hfirst⟩ := hr.first_occurrence hn
      refine ⟨_, heq, hfirst, ?_⟩
      have hmod := Nat.mod_mod_of_dvd (n - i) hk
      omega
    · refine ⟨n, rfl, fun l hl => hr.distinct l n hl ?_, rfl⟩
      omega
  refine loop_diverges (fun locals s => s = h ∧ ∃ n, locals = (chain h head n, Int32.ofNat n)) ?_ fuel
    ⟨rfl, 0, rfl⟩
  intro locals s hinv
  obtain ⟨hs, n, hlocals⟩ := hinv
  subst hs hlocals
  obtain ⟨j, hj, hfirst, hpos⟩ := hagree n
  have hround := run_has_loop_body_next hclosed hhead (hlive n) hj hfirst
    (Nat.lt_of_lt_of_le (Nat.lt_succ_self j) (Nat.le_max_right fuel (j + 1))) hpos
  rcases within_has_loop_body head (Nat.le_max_left fuel (j + 1)) (chain s head n, Int32.ofNat n) s
    with hfuel | heq
  · exact .inl hfuel
  · exact .inr ⟨_, s, heq.trans hround, rfl, n + 1, rfl⟩

end

end

end basic_data_struct.linked_list
