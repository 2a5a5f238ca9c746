import Mathlib.Data.Nat.Digits.Lemmas

namespace stdio

variable {b : UInt8}

/-- The byte of a decimal digit. -/
def digitByte (d : Nat) : UInt8 := UInt8.ofNat (48 + d)

/-- What `%d` prints for a number that is not negative. -/
def decimal (n : Nat) : List UInt8 := if n = 0 then [48] else (Nat.digits 10 n).reverse.map digitByte

def isDigit (b : UInt8) : Bool := 48 ≤ b.toNat && b.toNat ≤ 57

def isSpace (b : UInt8) : Bool := b.toNat = 32 || (9 ≤ b.toNat && b.toNat ≤ 13)

/-- The number that digits stand for. -/
def value (digits : List UInt8) : Nat := digits.foldl (fun acc b => 10 * acc + (b.toNat - 48)) 0

/-- `%d` of `scanf` on a number without a sign, with the rest of the file. White space in
front of the number is skipped. -/
def scanDecimal (file : List UInt8) : Option (Nat × List UInt8) :=
  let file := file.dropWhile isSpace
  if file.takeWhile isDigit = [] then none
  else some (value (file.takeWhile isDigit), file.dropWhile isDigit)

section

variable {d n : Nat}

theorem toNat_digitByte (hd : d < 10) : (digitByte d).toNat = 48 + d := by
  rw [digitByte, UInt8.toNat_ofNat', Nat.mod_eq_of_lt (by omega)]

theorem isDigit_digitByte (hd : d < 10) : isDigit (digitByte d) = true := by
  rw [isDigit, toNat_digitByte hd]
  simp only [Bool.and_eq_true, decide_eq_true_eq]
  omega

theorem isSpace_eq_false_of_isDigit (h : isDigit b = true) : isSpace b = false := by
  simp only [isDigit, Bool.and_eq_true, decide_eq_true_eq] at h
  simp only [isSpace, Bool.or_eq_false_iff, Bool.and_eq_false_iff, decide_eq_false_iff_not]
  omega

/-- The digits of a number, the lowest first. -/
theorem value_reverse (l : List Nat) (hl : ∀ d ∈ l, d < 10) : value (l.reverse.map digitByte) = Nat.ofDigits 10 l := by
  induction l with
  | nil => rfl
  | cons d l ih =>
    have hd : d < 10 := hl d List.mem_cons_self
    have htail : value (l.reverse.map digitByte) = Nat.ofDigits 10 l := ih fun e he => hl e (List.mem_cons_of_mem d he)
    rw [value] at htail ⊢
    rw [List.reverse_cons, List.map_append, List.foldl_append, htail, List.map_singleton, List.foldl_cons,
      List.foldl_nil, toNat_digitByte hd, Nat.ofDigits_cons, Nat.add_sub_cancel_left, Nat.add_comm]

theorem value_decimal (n : Nat) : value (decimal n) = n := by
  rw [decimal]
  split
  next hn => simp [hn, value]
  next => rw [value_reverse _ fun d hd => Nat.digits_lt_base (by decide) hd, Nat.ofDigits_digits]

/-- The value of digits. -/
theorem value_lt_pow {digits : List UInt8} (h : ∀ b ∈ digits, isDigit b = true) :
    value digits < 10 ^ digits.length := by
  induction digits using List.reverseRecOn with
  | nil => decide
  | append_singleton digits b ih =>
    have hdigits := ih fun c hc => h c (List.mem_append_left _ hc)
    have hb : isDigit b = true := h b (by simp)
    simp only [isDigit, Bool.and_eq_true, decide_eq_true_eq] at hb
    have hvalue : value (digits ++ [b]) = 10 * value digits + (b.toNat - 48) := by
      simp only [value, List.foldl_append, List.foldl_cons, List.foldl_nil]
    rw [hvalue, List.length_append, List.length_singleton, pow_succ]
    omega

theorem isDigit_of_mem_decimal (hb : b ∈ decimal n) : isDigit b = true := by
  rw [decimal] at hb
  split at hb
  · rw [List.mem_singleton.mp hb]
    rfl
  · obtain ⟨d, hd, rfl⟩ := List.mem_map.mp hb
    exact isDigit_digitByte (Nat.digits_lt_base (by decide) (List.mem_reverse.mp hd))

theorem decimal_ne_nil (n : Nat) : decimal n ≠ [] := by
  rw [decimal]
  split
  · exact List.cons_ne_nil _ _
  next hn => simpa [Nat.digits_eq_nil_iff_eq_zero] using hn

theorem length_decimal_le {k : Nat} (hk : 0 < k) (h : n < 10 ^ k) : (decimal n).length ≤ k := by
  rw [decimal]
  split
  · exact hk
  · rw [List.length_map, List.length_reverse]
    exact (Nat.digits_length_le_iff (by decide) n).mpr h

/-- The digits of a number end where something else follows. -/
theorem takeWhile_decimal (n : Nat) {rest : List UInt8} (hrest : ∀ b ∈ rest.head?, isDigit b = false) :
    (decimal n ++ rest).takeWhile isDigit = decimal n ∧ (decimal n ++ rest).dropWhile isDigit = rest := by
  rw [List.takeWhile_append_of_pos fun _ => isDigit_of_mem_decimal,
    List.dropWhile_append_of_pos fun _ => isDigit_of_mem_decimal]
  cases rest with
  | nil => exact ⟨List.append_nil _, rfl⟩
  | cons b rest =>
    have hb : isDigit b = false := hrest b rfl
    rw [List.takeWhile_cons_of_neg (by simp [hb]), List.dropWhile_cons_of_neg (by simp [hb]), List.append_nil]
    exact ⟨rfl, rfl⟩

theorem dropWhile_isSpace_decimal (n : Nat) (rest : List UInt8) :
    (decimal n ++ rest).dropWhile isSpace = decimal n ++ rest := by
  obtain ⟨c, digits, hdigits⟩ := List.exists_cons_of_ne_nil (decimal_ne_nil n)
  have hc : isDigit c = true := isDigit_of_mem_decimal (n := n) (by simp [hdigits])
  rw [hdigits, List.cons_append, List.dropWhile_cons_of_neg (by simp [isSpace_eq_false_of_isDigit hc])]

/-- A printed number is read back, and the rest of the file is left. -/
theorem scanDecimal_decimal (n : Nat) {file : List UInt8} (hb : isDigit b = false) :
    scanDecimal (decimal n ++ b :: file) = some (n, b :: file) := by
  have hrest : ∀ c ∈ (b :: file).head?, isDigit c = false := by simpa using hb
  obtain ⟨htake, hdrop⟩ := takeWhile_decimal n hrest
  rw [scanDecimal, dropWhile_isSpace_decimal, htake, hdrop, if_neg (decimal_ne_nil n), value_decimal]

theorem scanDecimal_cons_space (file : List UInt8) (hb : isSpace b = true) :
    scanDecimal (b :: file) = scanDecimal file := by
  rw [scanDecimal, scanDecimal, List.dropWhile_cons_of_pos hb]

end

end stdio
