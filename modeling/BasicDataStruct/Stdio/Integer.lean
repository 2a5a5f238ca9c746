import BasicDataStruct.Stdio.Decimal

namespace stdio

/-- What `%d` prints. -/
def integer (n : Int) : List UInt8 := if n < 0 then 45 :: decimal n.natAbs else decimal n.natAbs

/-- The sign in front of a number, and what follows it. -/
def splitSign : List UInt8 → Bool × List UInt8
  | 45 :: digits => (true, digits)
  | 43 :: digits => (false, digits)
  | digits => (false, digits)

/-- `%d` of `scanf`, with the rest of the file. White space in front of the number is skipped. -/
def scanInteger (file : List UInt8) : Option (Int × List UInt8) :=
  let (negative, digits) := splitSign (file.dropWhile isSpace)
  if digits.takeWhile isDigit = [] then none
  else
    let n : Int := value (digits.takeWhile isDigit)
    some (if negative then -n else n, digits.dropWhile isDigit)

theorem splitSign_decimal (n : Nat) (rest : List UInt8) :
    splitSign (decimal n ++ rest) = (false, decimal n ++ rest) := by
  obtain ⟨c, digits, hdigits⟩ := List.exists_cons_of_ne_nil (decimal_ne_nil n)
  have hc : isDigit c = true := isDigit_of_mem_decimal (n := n) (by simp [hdigits])
  have hminus : c ≠ 45 := fun h => absurd (h ▸ hc) (by decide)
  have hplus : c ≠ 43 := fun h => absurd (h ▸ hc) (by decide)
  rw [hdigits, List.cons_append]
  exact splitSign.eq_3 _ (fun _ h => hminus (List.cons.inj h).1) fun _ h => hplus (List.cons.inj h).1

theorem integer_natCast (n : Nat) : integer n = decimal n := if_neg (by omega)

theorem dropWhile_isSpace_integer (n : Int) (rest : List UInt8) :
    (integer n ++ rest).dropWhile isSpace = integer n ++ rest := by
  rw [integer]
  split
  · rfl
  · exact dropWhile_isSpace_decimal _ rest

theorem splitSign_integer (n : Int) (rest : List UInt8) :
    splitSign (integer n ++ rest) = (decide (n < 0), decimal n.natAbs ++ rest) := by
  rw [integer]
  split
  next hneg =>
    rw [decide_eq_true hneg]
    rfl
  next hneg => rw [splitSign_decimal, decide_eq_false hneg]

/-- What is printed can be read back, whatever follows that is no digit. -/
theorem scanInteger_integer (n : Int) {rest : List UInt8} (hrest : ∀ b ∈ rest.head?, isDigit b = false) :
    scanInteger (integer n ++ rest) = some (n, rest) := by
  obtain ⟨htake, hdrop⟩ := takeWhile_decimal n.natAbs hrest
  have hn : (if decide (n < 0) = true then -(n.natAbs : Int) else n.natAbs) = n := by
    simp only [decide_eq_true_eq]
    omega
  simp only [scanInteger, dropWhile_isSpace_integer, splitSign_integer, htake, hdrop,
    if_neg (decimal_ne_nil n.natAbs), value_decimal, hn]

theorem scanInteger_cons_space {b : UInt8} (file : List UInt8) (hb : isSpace b = true) :
    scanInteger (b :: file) = scanInteger file := by
  rw [scanInteger, scanInteger, List.dropWhile_cons_of_pos hb]

end stdio
