import BasicDataStruct.ByteValueIncrease.ByteOrder
import BasicDataStruct.Words.OnesComplement

open words basic_data_struct.byte_value_increase

namespace basic_data_struct.ping

variable {m n w : Nat} {buf : List UInt8}

/-- `sum += n` for an `int`. There is no result if it overflows. -/
def addInt (sum n : Int) : Option Int :=
  if -2147483648 ≤ sum + n ∧ sum + n < 2147483648 then some (sum + n) else none

/-- The accumulation of `cal_chksum`, over the bytes that are left. Behind an odd number of bytes the last one is the
low byte of `answer`. -/
def accumulate : Int → List UInt8 → Option Int
  | sum, a :: b :: left => do
    let sum ← addInt sum (leWord a b).toNat
    accumulate sum left
  | sum, [a] => addInt sum (leWord a 0).toNat
  | sum, [] => some sum

/-- For the buffer of `len` bytes at `addr`. -/
def cal_chksum (buf : List UInt8) : Option UInt16 := do
  let sum ← accumulate 0 buf
  let sum ← addInt (sum / 65536) (sum % 65536)
  let sum ← addInt sum (sum / 65536)
  -- `answer=~sum`
  return UInt16.ofInt (-sum - 1)

/-- The accumulation of `checksum`, in an `unsigned long` of `w` bits. -/
def accumulateLong (w : Nat) : Nat → List UInt8 → Nat
  | cksum, a :: b :: buffer => accumulateLong w ((cksum + (leWord a b).toNat) % 2 ^ w) buffer
  | cksum, [a] => (cksum + a.toNat) % 2 ^ w
  | cksum, [] => cksum

def checksum (w : Nat) (buffer : List UInt8) : UInt16 :=
  let cksum := accumulateLong w 0 buffer
  let cksum := (cksum / 65536 + cksum % 65536) % 2 ^ w
  let cksum := (cksum + cksum / 65536) % 2 ^ w
  UInt16.ofNat (2 ^ w - 1 - cksum)

/-- `icmp->icmp_cksum=cksum`: the field is at bytes 2 and 3. -/
def setCksum (cksum : UInt16) : List UInt8 → List UInt8
  | a :: b :: _ :: _ :: icmp => a :: b :: lowByte cksum :: highByte cksum :: icmp
  | icmp => icmp

/-- The sum of the words of a buffer. -/
def wordSum : List UInt8 → Nat
  | a :: b :: buf => (leWord a b).toNat + wordSum buf
  | [a] => a.toNat
  | [] => 0

section Sum

theorem two_mul_wordSum_le (buf : List UInt8) : 2 * wordSum buf ≤ 65535 * buf.length := by
  fun_induction wordSum buf with
  | case1 a b buf ih =>
    have hword := (leWord a b).toNat_lt
    simp only [List.length_cons]
    omega
  | case2 a =>
    have ha := a.toNat_lt
    simp only [List.length_singleton]
    omega
  | case3 => exact Nat.le_refl 0

theorem addInt_natCast (h : m + n < 2147483648) : addInt m n = some ((m + n : Nat) : Int) := by
  rw [addInt, if_pos (by omega)]
  rfl

theorem accumulate_eq {sum : Nat} (h : sum + wordSum buf < 2147483648) :
    accumulate sum buf = some ((sum + wordSum buf : Nat) : Int) := by
  fun_induction wordSum buf generalizing sum with
  | case1 a b buf ih =>
    rw [accumulate, addInt_natCast (by omega), Option.bind_eq_bind, Option.bind_some, ih (by omega), Nat.add_assoc]
  | case2 a =>
    have hword : (leWord a 0).toNat = a.toNat := by simp [toNat_leWord]
    rw [accumulate, hword, addInt_natCast h]
  | case3 => rw [accumulate, Nat.add_zero]

theorem accumulateLong_eq {cksum : Nat} (h : cksum + wordSum buf < 2 ^ w) :
    accumulateLong w cksum buf = cksum + wordSum buf := by
  fun_induction wordSum buf generalizing cksum with
  | case1 a b buf ih =>
    rw [accumulateLong, Nat.mod_eq_of_lt (by omega), ih (by omega), Nat.add_assoc]
  | case2 a => rw [accumulateLong, Nat.mod_eq_of_lt h]
  | case3 => rw [accumulateLong, Nat.add_zero]

theorem ofNat_congr (h : m % 65536 = n % 65536) : UInt16.ofNat m = UInt16.ofNat n :=
  UInt16.toNat_inj.mp (by simpa only [UInt16.toNat_ofNat'] using h)

/-- `~u` in 16 bits. -/
theorem ofInt_not (u : Nat) : UInt16.ofInt (-u - 1) = UInt16.ofNat (65535 - u % 65536) := by
  rw [UInt16.ofInt]
  refine ofNat_congr ?_
  omega

theorem addInt_fold {s : Nat} (h : s < 2147483648) :
    addInt ((s : Int) / 65536) ((s : Int) % 65536) = some ((s / 65536 + s % 65536 : Nat) : Int) := by
  rw [addInt, if_pos (by omega)]
  exact congrArg some (by omega)

theorem addInt_carry {t : Nat} (h : t < 98304) :
    addInt (t : Int) ((t : Int) / 65536) = some ((t + t / 65536 : Nat) : Int) := by
  rw [addInt, if_pos (by omega)]
  exact congrArg some (by omega)

/-- The complement of the sum. -/
theorem cal_chksum_eq (h : wordSum buf < 2147483648) :
    cal_chksum buf = some (UInt16.ofNat (65535 - endAround 65536 (wordSum buf))) := by
  have hsum : accumulate (0 : Nat) buf = some ((0 + wordSum buf : Nat) : Int) := accumulate_eq (by omega)
  have hsmall : wordSum buf / 65536 + wordSum buf % 65536 < 98304 := by omega
  rw [Nat.zero_add, Int.natCast_zero] at hsum
  rw [cal_chksum, hsum, Option.bind_eq_bind, Option.bind_some, addInt_fold h, Option.bind_some, addInt_carry hsmall,
    Option.bind_some, ofInt_not, endAround]
  rfl

theorem checksum_eq (hw : 32 ≤ w) (h : wordSum buf < 2147483648) :
    checksum w buf = UInt16.ofNat (65535 - endAround 65536 (wordSum buf)) := by
  obtain ⟨k, hk⟩ : ∃ k, 2 ^ w = 4294967296 * k := pow_dvd_pow 2 hw
  have hpos : 0 < 2 ^ w := Nat.two_pow_pos w
  have hsum : accumulateLong w 0 buf = wordSum buf := by
    rw [accumulateLong_eq (by omega), Nat.zero_add]
  simp only [checksum, hsum, endAround]
  generalize wordSum buf = s at h
  rw [Nat.mod_eq_of_lt (by omega : s / 65536 + s % 65536 < 2 ^ w), Nat.mod_eq_of_lt (by omega)]
  refine ofNat_congr ?_
  omega

end Sum

section Field

variable {buf : List UInt8}

theorem exists_cons_four (hbuf : 4 ≤ buf.length) : ∃ a b c d left, buf = a :: b :: c :: d :: left := by
  match buf, hbuf with
  | a :: b :: c :: d :: left, _ => exact ⟨a, b, c, d, left, rfl⟩

/-- The field is one word of the sum. -/
theorem wordSum_setCksum (hbuf : 4 ≤ buf.length) (cksum : UInt16) :
    wordSum (setCksum cksum buf) = wordSum (setCksum 0 buf) + cksum.toNat := by
  obtain ⟨a, b, c, d, left, rfl⟩ := exists_cons_four hbuf
  simp only [setCksum, wordSum, leWord_bytes, UInt16.toNat_zero]
  omega

@[simp] theorem length_setCksum (cksum : UInt16) : (setCksum cksum buf).length = buf.length := by
  fun_cases setCksum cksum buf with
  | case1 => rfl
  | case2 => rfl

theorem wordSum_lt (hbuf : buf.length ≤ 65535) : wordSum buf < 2147483648 := by
  have := two_mul_wordSum_le buf
  omega

/-- A buffer with its own checksum in it. -/
theorem cal_chksum_setCksum (hbuf : 4 ≤ buf.length) (hlength : buf.length ≤ 65535) :
    ∃ c, cal_chksum (setCksum 0 buf) = some c ∧ cal_chksum (setCksum c buf) = some 0 := by
  have hlt (cksum : UInt16) : wordSum (setCksum cksum buf) < 2147483648 := wordSum_lt (by simpa using hlength)
  refine ⟨_, cal_chksum_eq (hlt 0), ?_⟩
  have hfield : (UInt16.ofNat (65535 - endAround 65536 (wordSum (setCksum 0 buf)))).toNat =
      65535 - endAround 65536 (wordSum (setCksum 0 buf)) := by
    rw [UInt16.toNat_ofNat']
    omega
  have hbound := hlt 0
  rw [cal_chksum_eq (hlt _), wordSum_setCksum hbuf, hfield,
    endAround_complement (show 0 < 65535 by decide) (by omega)]
  rfl

end Field

/-- The accumulation does not overflow, the two functions agree, and the checksum in its field makes the checksum of the
whole buffer 0. -/
theorem cal_chksum_verifies (buf : List UInt8) (hbuf : 4 ≤ buf.length) (hlength : buf.length ≤ 65535) (w : Nat)
    (hw : 32 ≤ w) : cal_chksum buf = some (checksum w buf) ∧
      ∃ c, cal_chksum (setCksum 0 buf) = some c ∧ cal_chksum (setCksum c buf) = some 0 := by
  refine ⟨?_, cal_chksum_setCksum hbuf hlength⟩
  rw [cal_chksum_eq (wordSum_lt hlength), checksum_eq hw (wordSum_lt hlength)]

theorem cal_chksum_verifies_five : cal_chksum [8, 0, 7, 7, 1] = some (checksum 32 [8, 0, 7, 7, 1]) ∧
    ∃ c, cal_chksum (setCksum 0 [8, 0, 7, 7, 1]) = some c ∧ cal_chksum (setCksum c [8, 0, 7, 7, 1]) = some 0 :=
  cal_chksum_verifies [8, 0, 7, 7, 1] (by decide) (by decide) 32 (by decide)

end basic_data_struct.ping
