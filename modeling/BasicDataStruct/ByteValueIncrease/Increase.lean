import BasicDataStruct.Machine.Range
import BasicDataStruct.Words.Carry

open machine machine.Exec words

namespace basic_data_struct.byte_value_increase

/-- The memory is the array behind `data`, in the 16-bit words that the host reads. -/
abbrev Prog := Exec (List UInt16)

/-- `*current`. The pointer is an index into the array. -/
def word (current : Int) : Prog UInt16 := do
  let data ← get
  if 0 ≤ current then
    match data[current.toNat]? with
    | some w => return w
    | none => fail .bounds
  else fail .bounds

/-- `*current += addend`, and the `over_flow` that the test behind it finds. -/
def add_word (current : Int) (addend : UInt16) : Prog UInt16 := do
  let w ← word current
  modify (·.set current.toNat (w + addend))
  return if w + addend < addend then 1 else 0

/-- `loop = length/sizeof(unsigned short int)`. The division is one of `size_t`, and its
result is cut to 16 bits. -/
def loopCount (length : Int32) : Nat := (length.toInt % 2 ^ 64).toNat / 2 % 2 ^ 16

/-- The loop body of the host variant. -/
def host_body (_ : Nat) : Int × UInt16 → Prog (Int × UInt16)
  | (current, over_flow) => do return (current + 1, ← add_word current over_flow)

def host_byte_order_increase_by_step (length : Int32) (step : UInt16) : Prog Int32 := do
  let over_flow ← add_word 0 step
  let _ ← forRange host_body 1 (loopCount length - 1) (1, over_flow)
  return 0

/-- The body of the second loop of the network variant. -/
def network_body (_ : Nat) : Int × UInt16 → Prog (Int × UInt16)
  | (current, over_flow) => do return (current - 1, ← add_word current over_flow)

/-- The first loop moves `current` to the last word, from which the second goes down. -/
def network_byte_order_increase_by_step (length : Int32) (step : UInt16) : Prog Int32 := do
  let last ← forRange (fun _ current => return current + 1) 1 (loopCount length - 1) (0 : Int)
  let over_flow ← add_word last step
  let _ ← forRange network_body 1 (loopCount length - 1) (last - 1, over_flow)
  return 0

/-- What both functions do to the words, from the lowest one on. -/
def increase : List UInt16 → UInt16 → List UInt16
  | [], _ => []
  | w :: ws, c => (w + c) :: increase ws (if w + c < c then 1 else 0)

/-- The number that words stand for, the lowest one first. -/
def value (ws : List UInt16) : Nat := Nat.ofDigits 65536 (ws.map UInt16.toNat)

/-- A sum that is less than one of its summands has wrapped around, once. -/
theorem carry_toNat (w c : UInt16) :
    (if w + c < c then 1 else 0 : UInt16).toNat = (w.toNat + c.toNat) / 65536 := by
  have hw := w.toNat_lt
  have hc := c.toNat_lt
  have hlt : w + c < c ↔ 65536 ≤ w.toNat + c.toNat := by
    rw [UInt16.lt_iff_toNat_lt, UInt16.toNat_add]
    omega
  by_cases hcarry : 65536 ≤ w.toNat + c.toNat
  · rw [if_pos (hlt.mpr hcarry), UInt16.toNat_one]
    omega
  · rw [if_neg (mt hlt.mp hcarry), UInt16.toNat_zero]
    omega

/-- The words are added like digits. -/
theorem map_increase (ws : List UInt16) (c : UInt16) :
    (increase ws c).map UInt16.toNat = addDigits 65536 (ws.map UInt16.toNat) c.toNat := by
  induction ws generalizing c with
  | nil => rfl
  | cons w ws ih =>
    rw [increase, List.map_cons, List.map_cons, addDigits, ih, carry_toNat, UInt16.toNat_add]

@[simp] theorem length_increase (ws : List UInt16) (c : UInt16) : (increase ws c).length = ws.length := by
  have hlength := congrArg List.length (map_increase ws c)
  rwa [List.length_map, length_addDigits, List.length_map] at hlength

theorem value_increase (ws : List UInt16) (c : UInt16) :
    value (increase ws c) = (value ws + c.toNat) % 65536 ^ ws.length := by
  rw [value, map_increase, ofDigits_addDigits (by omega), List.length_map, value]

section

variable {front back : List UInt16} {w c : UInt16}

/-- One word in the middle of the array. -/
theorem run_add_word {current : Int} (hcurrent : current = front.length) :
    (add_word current c).run (front ++ w :: back) =
      .ok (if w + c < c then 1 else 0, front ++ (w + c) :: back) := by
  have hget : (front ++ w :: back)[current.toNat]? = some w := by
    rw [hcurrent, Int.toNat_natCast, List.getElem?_append_right (Nat.le_refl _), Nat.sub_self, List.getElem?_cons_zero]
  have hword : (word current).run (front ++ w :: back) = .ok (w, front ++ w :: back) := by
    rw [word, run_bind_of_ok (run_get _), if_pos (by omega), hget, run_pure]
  rw [add_word, run_bind_of_ok hword, run_bind_of_ok (run_modify _ _), run_pure, hcurrent, Int.toNat_natCast,
    List.set_append_right _ _ (Nat.le_refl _), Nat.sub_self, List.set_cons_zero]

/-- The loop of the host variant, with the words of `front` behind it. -/
theorem run_host_loop (current : Int) (todo : List UInt16) (c : UInt16) (front : List UInt16) (i : Nat)
    (hcurrent : current = front.length) :
    ∃ locals, (forRange host_body i todo.length (current, c)).run (front ++ todo) =
      .ok (locals, front ++ increase todo c) := by
  induction todo generalizing c front i current with
  | nil => exact ⟨_, rfl⟩
  | cons w todo ih =>
    have hnext : current + 1 = ((front ++ [w + c]).length : Int) := by
      rw [List.length_append, List.length_singleton, hcurrent]
      rfl
    obtain ⟨locals, hrest⟩ := ih (current + 1) (if w + c < c then 1 else 0) (front ++ [w + c]) (i + 1) hnext
    refine ⟨locals, ?_⟩
    rw [List.append_assoc, List.singleton_append, List.append_assoc, List.singleton_append] at hrest
    rw [List.length_cons, forRange, run_bind, host_body, run_bind_of_ok (run_add_word hcurrent)]
    exact hrest

/-- The second loop of the network variant, which has `todo` in front of it from the last
word to the first. -/
theorem run_network_loop (current : Int) (todo : List UInt16) (c : UInt16) (back : List UInt16) (i : Nat)
    (hcurrent : current + 1 = todo.length) :
    ∃ locals, (forRange network_body i todo.length (current, c)).run (todo.reverse ++ back) =
      .ok (locals, (increase todo c).reverse ++ back) := by
  induction todo generalizing c back i current with
  | nil => exact ⟨_, rfl⟩
  | cons w todo ih =>
    rw [List.length_cons, Int.natCast_succ, Int.add_left_inj] at hcurrent
    have hlast : current = todo.reverse.length := by rw [List.length_reverse, hcurrent]
    obtain ⟨locals, hrest⟩ := ih (current - 1) (if w + c < c then 1 else 0) ((w + c) :: back) (i + 1) (by omega)
    refine ⟨locals, ?_⟩
    rw [List.length_cons, forRange, List.reverse_cons, List.append_assoc, List.singleton_append, run_bind, network_body,
      run_bind_of_ok (run_add_word hlast), increase, List.reverse_cons, List.append_assoc, List.singleton_append]
    exact hrest

/-- Where the first loop of the network variant leaves `current`. -/
theorem run_last_loop (data : List UInt16) (count i : Nat) (current : Int) :
    (forRange (fun _ current => return current + 1) i count current : Prog Int).run data =
      .ok (current + count, data) := by
  induction count generalizing i current with
  | zero => rw [forRange, run_pure, Int.natCast_zero, Int.add_zero]
  | succ count ih =>
    rw [forRange, run_pure_bind, ih, Int.natCast_succ]
    congr 2
    omega

end

/-- Up to 65535 words are counted. -/
theorem loopCount_ofNat {n : Nat} (hn : n ≤ 65535) : loopCount (Int32.ofNat (2 * n)) = n := by
  rw [loopCount, Int32.toInt_ofNat_of_lt (by omega)]
  omega

theorem run_host {data : List UInt16} (hpos : 1 ≤ data.length) (hlen : data.length ≤ 65535) (step : UInt16) :
    (host_byte_order_increase_by_step (Int32.ofNat (2 * data.length)) step).run data = .ok (0, increase data step) := by
  cases data with
  | nil => exact absurd hpos (by decide)
  | cons w data =>
    have hfirst : (add_word 0 step).run (w :: data) = .ok (if w + step < step then 1 else 0, (w + step) :: data) :=
      @run_add_word [] data w step 0 rfl
    obtain ⟨locals, hloop⟩ := run_host_loop (1 : Int) data (if w + step < step then 1 else 0) [w + step] 1 rfl
    rw [List.singleton_append, List.singleton_append] at hloop
    rw [host_byte_order_increase_by_step, run_bind_of_ok hfirst, loopCount_ofNat hlen, List.length_cons,
      Nat.add_sub_cancel, run_bind_of_ok hloop, run_pure, increase]

theorem run_network {data : List UInt16} (hpos : 1 ≤ data.length) (hlen : data.length ≤ 65535) (step : UInt16) :
    (network_byte_order_increase_by_step (Int32.ofNat (2 * data.length)) step).run data =
      .ok (0, (increase data.reverse step).reverse) := by
  obtain ⟨todo, rfl⟩ : ∃ todo : List UInt16, data = todo.reverse := ⟨data.reverse, data.reverse_reverse.symm⟩
  rw [List.length_reverse] at hpos hlen ⊢
  rw [List.reverse_reverse]
  cases todo with
  | nil => exact absurd hpos (by decide)
  | cons w todo =>
    have hfirst : (add_word (0 + todo.length) step).run (todo.reverse ++ [w]) =
        .ok (if w + step < step then 1 else 0, todo.reverse ++ [w + step]) :=
      run_add_word (by rw [List.length_reverse, Int.zero_add])
    obtain ⟨locals, hloop⟩ := run_network_loop (0 + todo.length - 1) todo
      (if w + step < step then 1 else 0) [w + step] 1 (by omega)
    rw [network_byte_order_increase_by_step, loopCount_ofNat hlen, List.length_cons, Nat.add_sub_cancel,
      run_bind_of_ok (run_last_loop _ _ _ _), List.reverse_cons, run_bind_of_ok hfirst, run_bind_of_ok hloop, run_pure,
      increase, List.reverse_cons]

/-- Both variants add the step to the number in the array, modulo what the array can hold;
the network variant takes the words in the other order. -/
theorem increase_by_step_adds (data : List UInt16) (hpos : 1 ≤ data.length) (hlen : data.length ≤ 65535)
    (step : UInt16) :
    ∃ host network,
      (host_byte_order_increase_by_step (Int32.ofNat (2 * data.length)) step).run data = .ok (0, host) ∧
      host.length = data.length ∧ value host = (value data + step.toNat) % 65536 ^ data.length ∧
      (network_byte_order_increase_by_step (Int32.ofNat (2 * data.length)) step).run data = .ok (0, network) ∧
      network.length = data.length ∧
      value network.reverse = (value data.reverse + step.toNat) % 65536 ^ data.length ∧
      (host_byte_order_increase_by_step (Int32.ofNat (2 * data.length)) step).run data.reverse =
        .ok (0, network.reverse) := by
  have hvalue := value_increase data.reverse step
  have hreverse : (host_byte_order_increase_by_step (Int32.ofNat (2 * data.reverse.length)) step).run data.reverse =
      .ok (0, increase data.reverse step) := run_host (by rwa [List.length_reverse]) (by rwa [List.length_reverse]) step
  rw [List.length_reverse] at hreverse hvalue
  refine ⟨increase data step, (increase data.reverse step).reverse, run_host hpos hlen step, length_increase _ _,
    value_increase data step, run_network hpos hlen step, ?_, ?_, ?_⟩
  · rw [List.length_reverse, length_increase, List.length_reverse]
  · rw [List.reverse_reverse, hvalue]
  · rw [List.reverse_reverse, hreverse]

/-- A carry through two words, in both directions. -/
theorem increase_by_step_carries :
    ∃ host network, (host_byte_order_increase_by_step 6 2).run [65535, 65535, 7] = .ok (0, host) ∧
      host.length = 3 ∧ value host = (value [65535, 65535, 7] + 2) % 65536 ^ 3 ∧
      (network_byte_order_increase_by_step 6 2).run [65535, 65535, 7] = .ok (0, network) ∧ network.length = 3 ∧
      value network.reverse = (value [7, 65535, 65535] + 2) % 65536 ^ 3 ∧
      (host_byte_order_increase_by_step 6 2).run [7, 65535, 65535] = .ok (0, network.reverse) :=
  increase_by_step_adds [65535, 65535, 7] (by decide) (by decide) 2

end basic_data_struct.byte_value_increase
