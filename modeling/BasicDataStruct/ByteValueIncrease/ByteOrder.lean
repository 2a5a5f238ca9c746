import BasicDataStruct.ByteValueIncrease.Increase
import Mathlib.Data.Nat.Digits.Lemmas

open machine machine.Exec words

namespace basic_data_struct.byte_value_increase

variable {a s : Nat} {ws vs : List UInt16}

/-- The word that a little-endian host reads from two bytes. -/
def leWord (a b : UInt8) : UInt16 := .ofNat (a.toNat + 256 * b.toNat)

def lowByte (w : UInt16) : UInt8 := .ofNat (w.toNat % 256)

def highByte (w : UInt16) : UInt8 := .ofNat (w.toNat / 256)

/-- A buffer as the array of words that the host reads. -/
def hostWords : List UInt8 → List UInt16
  | a :: b :: buf => leWord a b :: hostWords buf
  | _ => []

/-- The bytes that the host stores for an array of words. -/
def hostBytes : List UInt16 → List UInt8
  | [] => []
  | w :: ws => lowByte w :: highByte w :: hostBytes ws

/-- A call with a buffer of bytes as its array of words. -/
def onBytes {α : Type} (x : Prog α) : Exec (List UInt8) α :=
  zoom hostWords (fun buf ws => hostBytes ws ++ buf.drop (2 * ws.length)) x

/-- `htons` on a little-endian host. -/
def htons (w : UInt16) : UInt16 := leWord (highByte w) (lowByte w)

/-- `*ch = htons(*ch)` or `*ch = htonl(*ch)` for the element number `i`: on a little-endian
host its bytes are turned around. -/
def hton_element (width i : Nat) : Exec (List UInt8) Unit := do
  let buf ← get
  inBounds (width * i + width - 1) buf.length
  modify fun buf => buf.take (width * i) ++ ((buf.drop (width * i)).take width).reverse ++ buf.drop (width * i + width)

/-- The argument `data` says whether the pointer is not NULL. -/
def host2network_byte_order (data : Bool) (width length : Int32) : Exec (List UInt8) Int32 := do
  if !data then return -1
  else if width < 2 then return -2
  else if length < 2 then return -3
  else if width = 2 ∨ width = 4 then
    forRange (fun i _ => hton_element width.toInt.toNat i) 0 (length / width).toInt.toNat ()
    return 0
  else return -4

/-- The number in a buffer in network byte order. -/
def networkValue (buf : List UInt8) : Nat := Nat.ofDigits 256 (buf.reverse.map UInt8.toNat)

section Bytes

variable (a b : UInt8) (w : UInt16)

theorem toNat_leWord : (leWord a b).toNat = a.toNat + 256 * b.toNat := by
  have ha := a.toNat_lt
  have hb := b.toNat_lt
  rw [leWord, UInt16.toNat_ofNat']
  omega

theorem toNat_lowByte : (lowByte w).toNat = w.toNat % 256 := by
  rw [lowByte, UInt8.toNat_ofNat']
  omega

theorem toNat_highByte : (highByte w).toNat = w.toNat / 256 := by
  have hw := w.toNat_lt
  rw [highByte, UInt8.toNat_ofNat']
  omega

@[simp] theorem lowByte_leWord : lowByte (leWord a b) = a := by
  have ha := a.toNat_lt
  rw [← UInt8.toNat_inj, toNat_lowByte, toNat_leWord]
  omega

@[simp] theorem highByte_leWord : highByte (leWord a b) = b := by
  have ha := a.toNat_lt
  rw [← UInt8.toNat_inj, toNat_highByte, toNat_leWord]
  omega

@[simp] theorem leWord_bytes : leWord (lowByte w) (highByte w) = w := by
  rw [← UInt16.toNat_inj, toNat_leWord, toNat_lowByte, toNat_highByte]
  omega

theorem toNat_htons : (htons w).toNat = w.toNat / 256 + 256 * (w.toNat % 256) := by
  rw [htons, toNat_leWord, toNat_highByte, toNat_lowByte]

@[simp] theorem htons_htons : htons (htons w) = w := by
  rw [htons, htons, highByte_leWord, lowByte_leWord, leWord_bytes]

end Bytes

theorem map_htons_htons (ws : List UInt16) : (ws.map htons).map htons = ws := by
  rw [List.map_map]
  exact List.map_id'' htons_htons ws

@[simp] theorem length_hostBytes (ws : List UInt16) : (hostBytes ws).length = 2 * ws.length := by
  induction ws with
  | nil => rfl
  | cons w ws ih =>
    rw [hostBytes, List.length_cons, List.length_cons, List.length_cons, ih]
    omega

theorem hostBytes_append (ws vs : List UInt16) : hostBytes (ws ++ vs) = hostBytes ws ++ hostBytes vs := by
  induction ws with
  | nil => rfl
  | cons w ws ih => rw [List.cons_append, hostBytes, hostBytes, ih, List.cons_append, List.cons_append]

@[simp] theorem hostWords_hostBytes (ws : List UInt16) : hostWords (hostBytes ws) = ws := by
  induction ws with
  | nil => rfl
  | cons w ws ih => rw [hostBytes, hostWords, ih, leWord_bytes]

/-- A buffer of even length is an array of words. -/
theorem hostBytes_hostWords {n : Nat} {buf : List UInt8} (hlen : buf.length = 2 * n) :
    hostBytes (hostWords buf) = buf ∧ (hostWords buf).length = n := by
  induction n generalizing buf with
  | zero =>
    rw [List.length_eq_zero_iff.mp hlen]
    exact ⟨rfl, rfl⟩
  | succ n ih =>
    match buf with
    | a :: b :: buf =>
      rw [List.length_cons, List.length_cons] at hlen
      obtain ⟨hbytes, hcount⟩ := ih (show buf.length = 2 * n by omega)
      rw [hostWords, hostBytes, lowByte_leWord, highByte_leWord, hbytes, List.length_cons, hcount]
      exact ⟨rfl, rfl⟩
    | [] => cases hlen
    | [a] =>
      rw [List.length_singleton] at hlen
      omega

/-- The number in a buffer whose words are in network byte order, the highest one first. -/
theorem networkValue_hostBytes (ws : List UInt16) : networkValue (hostBytes (ws.map htons)) = value ws.reverse := by
  induction ws with
  | nil => rfl
  | cons w ws ih =>
    have hreverse : (hostBytes ((w :: ws).map htons)).reverse =
        (hostBytes (ws.map htons)).reverse ++ [lowByte w, highByte w] := by
      simp [hostBytes, htons]
    have hpair : Nat.ofDigits 256 ([lowByte w, highByte w].map UInt8.toNat) = w.toNat := by
      rw [List.map_cons, List.map_singleton, Nat.ofDigits_cons, Nat.ofDigits_singleton, toNat_lowByte, toNat_highByte]
      exact Nat.mod_add_div _ _
    rw [networkValue] at ih ⊢
    rw [hreverse, List.map_append, Nat.ofDigits_append, ih, hpair, value, value, List.reverse_cons, List.map_append,
      Nat.ofDigits_append, List.map_singleton, Nat.ofDigits_singleton, List.length_map, List.length_map,
      List.length_reverse, List.length_reverse, length_hostBytes, List.length_map, pow_mul]
    norm_num

section Swapped

/-- The sum of a word with the bytes `a` and `b` and the number `c` does not depend on the
order of `a` and `b`: both bytes are carried out of, or both are not, and the lower byte of
`c` is the higher one with that carry. -/
def Symmetric (a b c carry : Nat) : Prop :=
  c % 256 = c / 256 + carry ∧ (a + c % 256) / 256 = carry ∧ (b + c % 256) / 256 = carry

instance (a b c carry : Nat) : Decidable (Symmetric a b c carry) := inferInstanceAs (Decidable (_ ∧ _ ∧ _))

/-- The bytes of a sum of two words. -/
theorem bytes_of_sum (a b s t : Nat) :
    (a + 256 * b + (s + 256 * t)) % 65536 % 256 = (a + s) % 256 ∧
      (a + 256 * b + (s + 256 * t)) % 65536 / 256 = (b + t + (a + s) / 256) % 256 := by
  constructor
  · omega
  · omega

/-- Two words with the bytes of each other. -/
theorem swap_eq_iff {x y : Nat} (hx : x < 65536) :
    x / 256 + 256 * (x % 256) = y ↔ x % 256 = y / 256 ∧ x / 256 = y % 256 := by
  omega

theorem carry_cases (ha : a < 256) (hs : s < 256) :
    (a + s) / 256 = 0 ∧ a + s < 256 ∨ (a + s) / 256 = 1 ∧ 256 ≤ a + s := by
  omega

theorem bytes_swapped_iff {b t : Nat} (ha : a < 256) (hb : b < 256) (hs : s < 256) (ht : t < 256) :
    (a + s) % 256 = (a + t + (b + s) / 256) % 256 ∧ (b + t + (a + s) / 256) % 256 = (b + s) % 256 ↔
      ∃ carry, s = t + carry ∧ (a + s) / 256 = carry ∧ (b + s) / 256 = carry := by
  have hcarry : (∃ carry, s = t + carry ∧ (a + s) / 256 = carry ∧ (b + s) / 256 = carry) ↔
      s = t + (a + s) / 256 ∧ (b + s) / 256 = (a + s) / 256 :=
    ⟨fun ⟨_, hlow, hka, hkb⟩ => ⟨hka ▸ hlow, hkb.trans hka.symm⟩, fun ⟨hlow, hkb⟩ => ⟨_, hlow, rfl, hkb⟩⟩
  rw [hcarry]
  rcases carry_cases ha hs with ⟨hka, has⟩ | ⟨hka, has⟩ <;> rcases carry_cases hb hs with ⟨hkb, hbs⟩ | ⟨hkb, hbs⟩ <;>
    rw [hka, hkb] <;> omega

variable {w c : UInt16} {ws : List UInt16}

theorem htons_add_iff :
    htons (htons w + c) = w + c ↔ ∃ carry, Symmetric (w.toNat / 256) (w.toNat % 256) c.toNat carry := by
  have hw := w.toNat_lt
  have hc := c.toNat_lt
  have hswapped := bytes_of_sum (w.toNat / 256) (w.toNat % 256) (c.toNat % 256) (c.toNat / 256)
  have hright := bytes_of_sum (w.toNat % 256) (w.toNat / 256) (c.toNat % 256) (c.toNat / 256)
  rw [Nat.mod_add_div] at hswapped
  rw [Nat.mod_add_div, Nat.mod_add_div] at hright
  simp only [Symmetric]
  rw [← bytes_swapped_iff (by omega) (by omega) (by omega) (by omega), ← hswapped.1, ← hswapped.2, ← hright.1,
    ← hright.2, ← UInt16.toNat_inj, toNat_htons, UInt16.toNat_add, UInt16.toNat_add, toNat_htons]
  exact swap_eq_iff (Nat.mod_lt _ (by decide))

/-- The carry out of the word is that of its bytes. -/
theorem Symmetric.carry {carry : Nat} (h : Symmetric (w.toNat / 256) (w.toNat % 256) c.toNat carry) :
    (if w + c < c then 1 else 0 : UInt16) = .ofNat carry ∧
      (if htons w + c < c then 1 else 0 : UInt16) = .ofNat carry := by
  obtain ⟨hlow, hhigh, hlast⟩ := h
  have hw := w.toNat_lt
  have hc := c.toNat_lt
  have hofNat : (UInt16.ofNat carry).toNat = carry := by
    rw [UInt16.toNat_ofNat']
    omega
  constructor
  · rw [← UInt16.toNat_inj, carry_toNat, hofNat]
    omega
  · rw [← UInt16.toNat_inj, carry_toNat, toNat_htons, hofNat]
    omega

/-- One word of an addition to words whose bytes are in the other order. -/
theorem swapped_cons_iff :
    (increase ((w :: ws).map htons) c).map htons = increase (w :: ws) c ↔
      ∃ carry, Symmetric (w.toNat / 256) (w.toNat % 256) c.toNat carry ∧
        (increase (ws.map htons) (.ofNat carry)).map htons = increase ws (.ofNat carry) := by
  rw [List.map_cons, increase, increase, List.map_cons, List.cons.injEq, htons_add_iff]
  constructor
  · rintro ⟨⟨carry, hsym⟩, htail⟩
    rw [hsym.carry.1, hsym.carry.2] at htail
    exact ⟨carry, hsym, htail⟩
  · rintro ⟨carry, hsym, htail⟩
    rw [hsym.carry.1, hsym.carry.2]
    exact ⟨⟨carry, hsym⟩, htail⟩

theorem map_toNat_inj : ws.map UInt16.toNat = vs.map UInt16.toNat ↔ ws = vs :=
  (List.map_injective_iff.mpr fun _ _ => UInt16.toNat_inj.mp).eq_iff

theorem increase_zero (ws : List UInt16) : increase ws 0 = ws := by
  rw [← map_toNat_inj, map_increase]
  exact addDigits_zero (List.forall_mem_map.mpr fun w _ => w.toNat_lt)

/-- A carry goes on only through words of ones. -/
theorem swapped_one_iff : (increase (ws.map htons) 1).map htons = increase ws 1 ↔ ∀ v ∈ ws, v = 65535 := by
  induction ws with
  | nil => simp [increase]
  | cons w ws ih =>
    have hw := w.toNat_lt
    have hones : w = 65535 ↔ Symmetric (w.toNat / 256) (w.toNat % 256) 1 1 := by
      rw [← UInt16.toNat_inj, Symmetric]
      change w.toNat = 65535 ↔ _
      omega
    rw [swapped_cons_iff, List.forall_mem_cons, hones, ← ih]
    constructor
    · rintro ⟨carry, hsym, htail⟩
      obtain rfl : carry = 1 := by
        have hlow : 1 % 256 = 1 / 256 + carry := hsym.1
        omega
      exact ⟨hsym, htail⟩
    · rintro ⟨hsym, htail⟩
      exact ⟨1, hsym, htail⟩

/-- All words. -/
theorem swapped_iff :
    (increase ((w :: ws).map htons) c).map htons = increase (w :: ws) c ↔
      ∃ carry, Symmetric (w.toNat / 256) (w.toNat % 256) c.toNat carry ∧ (carry = 0 ∨ ∀ v ∈ ws, v = 65535) := by
  rw [swapped_cons_iff]
  refine exists_congr fun carry => and_congr_right fun hsym => ?_
  have hle : carry ≤ 1 := by
    have hlast : (w.toNat % 256 + c.toNat % 256) / 256 = carry := hsym.2.2
    omega
  obtain rfl | rfl : carry = 0 ∨ carry = 1 := by omega
  · refine iff_of_true ?_ (.inl rfl)
    change (increase (ws.map htons) 0).map htons = increase ws 0
    rw [increase_zero, increase_zero, map_htons_htons]
  · rw [or_iff_right (by decide)]
    exact swapped_one_iff

end Swapped

/-- The step can be added to the last two bytes `a` and `b` of the buffer in either order,
and when there is a carry the bytes in front of them are all ones. -/
def OrderFree (buf : List UInt8) (step : UInt16) : Prop :=
  ∃ front a b carry, buf = front ++ [a, b] ∧ Symmetric a.toNat b.toNat step.toNat carry ∧
    (carry = 0 ∨ ∀ x ∈ front, x = 255)

theorem forall_hostBytes_iff (ws : List UInt16) :
    (∀ x ∈ hostBytes (ws.map htons), x = 255) ↔ ∀ w ∈ ws, w = 65535 := by
  induction ws with
  | nil => simp [hostBytes]
  | cons w ws ih =>
    have hw := w.toNat_lt
    have hones : lowByte (htons w) = 255 ∧ highByte (htons w) = 255 ↔ w = 65535 := by
      rw [htons, lowByte_leWord, highByte_leWord, ← UInt8.toNat_inj, ← UInt8.toNat_inj, ← UInt16.toNat_inj,
        toNat_highByte, toNat_lowByte]
      change w.toNat / 256 = 255 ∧ w.toNat % 256 = 255 ↔ w.toNat = 65535
      omega
    rw [List.map_cons, hostBytes, List.forall_mem_cons, List.forall_mem_cons, List.forall_mem_cons, ← and_assoc, hones,
      ih]

theorem orderFree_iff (w : UInt16) (u : List UInt16) (step : UInt16) :
    OrderFree (hostBytes (((w :: u).reverse).map htons)) step ↔
      ∃ carry, Symmetric (w.toNat / 256) (w.toNat % 256) step.toNat carry ∧ (carry = 0 ∨ ∀ v ∈ u, v = 65535) := by
  have hbuf : hostBytes (((w :: u).reverse).map htons) =
      hostBytes (u.reverse.map htons) ++ [highByte w, lowByte w] := by
    rw [List.reverse_cons, List.map_append, hostBytes_append]
    simp [hostBytes, htons]
  have hfront : (∀ x ∈ hostBytes (u.reverse.map htons), x = 255) ↔ ∀ v ∈ u, v = 65535 := by
    rw [forall_hostBytes_iff]
    simp only [List.mem_reverse]
  rw [OrderFree, hbuf, ← toNat_highByte, ← toNat_lowByte, ← hfront]
  constructor
  · rintro ⟨front, a, b, carry, heq, hsym, hcarry⟩
    obtain ⟨rfl, hlast⟩ := List.append_inj' heq rfl
    obtain ⟨rfl, hb⟩ := List.cons.inj hlast
    obtain ⟨rfl, -⟩ := List.cons.inj hb
    exact ⟨carry, hsym, hcarry⟩
  · rintro ⟨carry, hsym, hcarry⟩
    exact ⟨_, _, _, carry, rfl, hsym, hcarry⟩

/-- Words of one number are equal. -/
theorem value_inj (hlen : ws.length = vs.length) : value ws = value vs ↔ ws = vs := by
  refine ⟨fun hvalue => ?_, fun heq => heq ▸ rfl⟩
  have hdigits : ws.map UInt16.toNat = vs.map UInt16.toNat := by
    refine Nat.ofDigits_inj_of_len_eq (by decide) (by simpa using hlen) ?_ ?_ hvalue
    · exact List.forall_mem_map.mpr fun w _ => w.toNat_lt
    · exact List.forall_mem_map.mpr fun w _ => w.toNat_lt
  exact map_toNat_inj.mp hdigits

/-- The network variant on a buffer whose words are in network byte order. -/
theorem run_network_onBytes (hpos : 1 ≤ ws.length) (hlen : ws.length ≤ 65535) (step : UInt16) :
    (onBytes (network_byte_order_increase_by_step (Int32.ofNat (2 * ws.length)) step)).run (hostBytes (ws.map htons)) =
      .ok (0, hostBytes (increase (ws.reverse.map htons) step).reverse) := by
  have hrun : (network_byte_order_increase_by_step (Int32.ofNat (2 * (ws.map htons).length)) step).run (ws.map htons) =
      .ok (0, (increase (ws.map htons).reverse step).reverse) :=
    run_network (by rwa [List.length_map]) (by rwa [List.length_map]) step
  rw [List.length_map, ← hostWords_hostBytes (ws.map htons)] at hrun
  rw [onBytes, run_zoom hrun, hostWords_hostBytes, List.drop_eq_nil_of_le (by simp), List.append_nil, List.map_reverse]

/-- On a little-endian host the network variant adds the step to the number in network byte
order exactly when the bytes of the last word and of the step are of that kind. -/
theorem network_order_adds_iff (buf : List UInt8) {n : Nat} (hbuf : buf.length = 2 * n) (hpos : 1 ≤ n) (hn : n ≤ 65535)
    (step : UInt16) :
    (∃ buf', (onBytes (network_byte_order_increase_by_step (Int32.ofNat (2 * n)) step)).run buf = .ok (0, buf') ∧
        buf'.length = buf.length ∧
        networkValue buf' = (networkValue buf + step.toNat) % 256 ^ buf.length) ↔
      OrderFree buf step := by
  obtain ⟨ws, hlen, rfl⟩ : ∃ ws : List UInt16, ws.length = n ∧ buf = hostBytes (ws.map htons) := by
    obtain ⟨hbytes, hcount⟩ := hostBytes_hostWords hbuf
    exact ⟨(hostWords buf).map htons, by rw [List.length_map, hcount], by rw [map_htons_htons, hbytes]⟩
  subst hlen
  obtain ⟨u, rfl⟩ : ∃ u : List UInt16, ws = u.reverse := ⟨ws.reverse, ws.reverse_reverse.symm⟩
  rw [List.length_reverse] at hpos
  cases u with
  | nil => exact absurd hpos (by decide)
  | cons w u =>
    have hrun := run_network_onBytes (by rwa [List.length_reverse]) hn step
    have hsum : networkValue (hostBytes (increase ((w :: u).map htons) step).reverse) =
        value ((increase ((w :: u).map htons) step).map htons) := by
      rw [← map_htons_htons (increase ((w :: u).map htons) step).reverse, networkValue_hostBytes, List.map_reverse,
        List.reverse_reverse]
    have hright : (networkValue (hostBytes ((w :: u).reverse.map htons)) + step.toNat) %
        256 ^ (hostBytes ((w :: u).reverse.map htons)).length = value (increase (w :: u) step) := by
      rw [networkValue_hostBytes, List.reverse_reverse, value_increase, length_hostBytes, List.length_map,
        List.length_reverse, pow_mul]
      norm_num
    rw [List.reverse_reverse] at hrun
    rw [orderFree_iff, ← swapped_iff, hright, ← value_inj (by simp), ← hsum, hrun]
    constructor
    · rintro ⟨buf', hok, -, hvalue⟩
      cases hok
      exact hvalue
    · intro hvalue
      exact ⟨_, rfl, by simp, hvalue⟩

/-- A step with two bytes of one value. -/
theorem network_order_adds_257 :
    ∃ buf', (onBytes (network_byte_order_increase_by_step 4 257)).run [0, 0, 7, 8] = .ok (0, buf') ∧
      buf'.length = 4 ∧ networkValue buf' = (networkValue [0, 0, 7, 8] + 257) % 256 ^ 4 :=
  (network_order_adds_iff [0, 0, 7, 8] (n := 2) rfl (by decide) (by decide) 257).mpr
    ⟨[0, 0], 7, 8, 0, rfl, by decide, .inl rfl⟩

/-- The word 1 in network byte order becomes 257, and not 2. -/
theorem network_order_wrong :
    (host2network_byte_order true 2 2).run (hostBytes [1]) = .ok (0, [0, 1]) ∧
      ¬∃ buf', (onBytes (network_byte_order_increase_by_step 2 1)).run [0, 1] = .ok (0, buf') ∧
        buf'.length = 2 ∧ networkValue buf' = (networkValue [0, 1] + 1) % 256 ^ 2 := by
  refine ⟨rfl, ?_⟩
  rintro ⟨buf', hrun, -, hvalue⟩
  have hwrong : (onBytes (network_byte_order_increase_by_step 2 1)).run [0, 1] = .ok (0, [1, 1]) := rfl
  rw [hwrong] at hrun
  cases hrun
  exact absurd hvalue (by decide)

end basic_data_struct.byte_value_increase
