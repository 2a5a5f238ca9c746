import BasicDataStruct.Stdio.Fgets
import BasicDataStruct.Stdio.Decimal

namespace stdio

/-- The bytes of a string literal. -/
def ascii (literal : String) : List UInt8 := literal.toList.map fun c => UInt8.ofNat c.toNat

def tolower (b : UInt8) : UInt8 := if 65 ≤ b ∧ b ≤ 90 then b + 32 else b

/-- Whether `strcasecmp` gives 0. -/
def strcasecmp (s t : List UInt8) : Bool := s.map tolower = t.map tolower

/-- Whether `strncasecmp` gives 0. -/
def strncasecmp (s t : List UInt8) (n : Nat) : Bool := (s.take n).map tolower = (t.take n).map tolower

/-- The string from the first byte of `accept` on that `strpbrk` finds, or `NULL`. -/
def strpbrk (s accept : List UInt8) : Option (List UInt8) :=
  match s.dropWhile (· ∉ accept) with
  | [] => none
  | t => some t

/-- How many bytes at the start of a string are in `accept`. -/
def strspn (s accept : List UInt8) : Nat := (s.takeWhile (· ∈ accept)).length

/-- The string from the first byte `c` on, or `NULL`. -/
def strchr (s : List UInt8) (c : UInt8) : Option (List UInt8) := strpbrk s [c]

/-- The next token, and the string behind the byte that ends it. -/
def strtok (s delim : List UInt8) : Option (List UInt8 × List UInt8) :=
  match s.dropWhile (· ∈ delim) with
  | [] => none
  | t => some (t.takeWhile (· ∉ delim), (t.dropWhile (· ∉ delim)).tail)

/-- The number at the start of a string, with a sign or without, behind white space. A number that does
not fit a `long` becomes the largest or the smallest one. -/
def atol (s : List UInt8) : Int :=
  match s.dropWhile isSpace with
  | 45 :: s => max (-9223372036854775808) (-(value (s.takeWhile isDigit) : Int))
  | 43 :: s => min 9223372036854775807 (value (s.takeWhile isDigit))
  | s => min 9223372036854775807 (value (s.takeWhile isDigit))

section

variable {s t accept : List UInt8}

theorem suffix_of_strpbrk (h : strpbrk s accept = some t) : t ≠ [] ∧ t <:+ s := by
  have hsuffix : s.dropWhile (· ∉ accept) <:+ s := List.dropWhile_suffix _
  unfold strpbrk at h
  split at h
  · cases h
  next hne =>
    cases h
    exact ⟨fun h => hne h, hsuffix⟩

theorem isSome_strchr {c : UInt8} : (strchr s c).isSome ↔ c ∈ s := by
  rw [strchr, strpbrk]
  split
  next hdrop =>
    have hfree : ∀ b ∈ s, b ≠ c := by simpa [List.dropWhile_eq_nil_iff] using hdrop
    exact iff_of_false Bool.false_ne_true fun hc => hfree c hc rfl
  next hdrop =>
    rw [List.dropWhile_eq_nil_iff] at hdrop
    simpa using hdrop

section Token

variable {delim token rest : List UInt8}

theorem strtok_eq_none_iff : strtok s delim = none ↔ ∀ b ∈ s, b ∈ delim := by
  rw [strtok]
  split
  next hdrop => simpa [List.dropWhile_eq_nil_iff] using hdrop
  next hdrop =>
    rw [List.dropWhile_eq_nil_iff] at hdrop
    simpa using hdrop

theorem token_of_strtok (h : strtok s delim = some (token, rest)) :
    token ≠ [] ∧ token.length ≤ s.length ∧ rest.length ≤ s.length := by
  have hlength : (s.dropWhile (· ∈ delim)).length ≤ s.length := (List.dropWhile_suffix _).length_le
  have hhead := List.head?_dropWhile_not (fun b => decide (b ∈ delim)) s
  rw [strtok] at h
  cases hdrop : s.dropWhile (· ∈ delim) with
  | nil =>
    rw [hdrop] at h
    exact nomatch h
  | cons b t =>
    rw [hdrop] at h hhead hlength
    cases h
    have hb : b ∉ delim := by simpa using hhead
    have htake : ((b :: t).takeWhile (· ∉ delim)).length ≤ (b :: t).length := (List.takeWhile_prefix _).length_le
    have hrest : ((b :: t).dropWhile (· ∉ delim)).length ≤ (b :: t).length := (List.dropWhile_suffix _).length_le
    refine ⟨?_, htake.trans hlength, ?_⟩
    · rw [List.takeWhile_cons, if_pos (decide_eq_true hb)]
      exact List.cons_ne_nil _ _
    · rw [List.length_tail]
      omega

theorem strtok_of_head {b : UInt8} (hb : b ∉ delim) (t : List UInt8) : strtok (b :: t) delim =
    some ((b :: t).takeWhile (· ∉ delim), ((b :: t).dropWhile (· ∉ delim)).tail) := by
  rw [strtok, List.dropWhile_cons_of_neg (by simpa using hb)]

/-- A token at the start of the string. -/
theorem strtok_append (htoken : token ≠ []) (hfree : ∀ b ∈ token, b ∉ delim) {c : UInt8} (hc : c ∈ delim)
    (rest : List UInt8) : strtok (token ++ c :: rest) delim = some (token, rest) := by
  have hall : ∀ b ∈ token, decide (b ∉ delim) = true := fun b hb => decide_eq_true (hfree b hb)
  obtain ⟨b, t, rfl⟩ := List.exists_cons_of_ne_nil htoken
  rw [List.cons_append, strtok_of_head (hfree b List.mem_cons_self), ← List.cons_append,
    List.takeWhile_append_of_pos hall, List.dropWhile_append_of_pos hall, List.takeWhile_cons_of_neg
      (by simpa using hc),
    List.dropWhile_cons_of_neg (by simpa using hc), List.append_nil, List.tail_cons]

theorem strtok_self (htoken : token ≠ []) (hfree : ∀ b ∈ token, b ∉ delim) : strtok token delim = some (token, []) := by
  have hall : ∀ b ∈ token, decide (b ∉ delim) = true := fun b hb => decide_eq_true (hfree b hb)
  obtain ⟨b, t, rfl⟩ := List.exists_cons_of_ne_nil htoken
  rw [strtok_of_head (hfree b List.mem_cons_self), List.takeWhile_eq_self_iff.mpr hall,
    List.dropWhile_eq_nil_iff.mpr hall, List.tail_nil]

end Token

/-- A string of digits that fits a `long`. -/
theorem atol_digits (h : ∀ b ∈ s, isDigit b = true) (hvalue : value s ≤ 9223372036854775807) : atol s = value s := by
  have hspace : s.dropWhile isSpace = s := by
    cases s with
    | nil => rfl
    | cons b s => exact List.dropWhile_cons_of_neg (by simp [isSpace_eq_false_of_isDigit (h b List.mem_cons_self)])
  rw [atol, hspace]
  split
  · exact absurd (h 45 List.mem_cons_self) (by decide)
  · exact absurd (h 43 List.mem_cons_self) (by decide)
  · rw [List.takeWhile_eq_self_iff.mpr h]
    omega

/-- A NUL ends the string in a buffer. -/
theorem cstr_append_zero (s t : List UInt8) : cstr (s ++ 0 :: t) = cstr s := by
  induction s with
  | nil => rfl
  | cons b s ih =>
    rw [cstr, cstr, List.cons_append, List.takeWhile_cons, List.takeWhile_cons]
    split
    · rw [← cstr, ih, cstr]
    · rfl

theorem cstr_start (s : List UInt8) : cstr s <+: s := List.takeWhile_prefix _

end

end stdio
