import Mathlib.Tactic.Positivity
import BasicDataStruct.Machine.Exec
import BasicDataStruct.Stdio.CString

open machine machine.Exec stdio

namespace basic_data_struct.c_prog_lang

variable {s s' : State} {c : Int} {rest front : List Int} {n : Nat}

def BUFSIZE : Nat := 100

abbrev EOF : Int := -1

/-- The characters that were pushed back, the next one first, the rest of the input, the `int` at `pn`, and what was
printed. -/
structure State where
  buf : List Int8
  input : List UInt8
  pn : Int32
  out : List UInt8
  fits : buf.length ≤ BUFSIZE

/-- A `char` of the buffer is signed, `getchar` gives the value of a byte. -/
def getch : Exec State Int := ⟨fun
  | ⟨c :: buf, input, pn, out, fits⟩ => .ok (c.toInt, ⟨buf, input, pn, out, Nat.le_of_succ_le fits⟩)
  | ⟨[], b :: input, pn, out, fits⟩ => .ok (b.toNat, ⟨[], input, pn, out, fits⟩)
  | ⟨[], [], pn, out, fits⟩ => .ok (EOF, ⟨[], [], pn, out, fits⟩)⟩

def ungetch (c : Int) : Exec State Unit := ⟨fun s =>
  if h : s.buf.length < BUFSIZE then .ok ((), { s with buf := Int8.ofInt c :: s.buf, fits := h })
  else .ok ((), { s with out := s.out ++ ascii "ungetch: too many characters\n" })⟩

def isspace (c : Int) : Bool := c = 32 || (9 ≤ c && c ≤ 13)

def isdigit (c : Int) : Bool := 48 ≤ c && c ≤ 57

abbrev PLUS : Int := 43

abbrev MINUS : Int := 45

/-- A round of the loop that skips white space. -/
def skipSpace : Unit → Exec State (Unit ⊕ Int) := fun _ => do
  let c ← getch
  if isspace c then return .inl () else return .inr c

/-- A round of the loop for the digits. Its condition is the new character: the value of `isdigit(c)` is dropped. -/
def readDigit : Unit → Exec State (Unit ⊕ Int) := fun _ => do
  let c ← getch
  if c ≠ 0 then
    modify fun s => { s with pn := 10 * s.pn + Int32.ofInt (c - 48) }
    return .inl ()
  else return .inr c

/-- The loop for the digits and what follows it. -/
def readDigits (fuel : Nat) (sign : Int32) : Exec State Int := do
  modify fun s => { s with pn := 0 }
  let c ← loop readDigit fuel ()
  modify fun s => { s with pn := s.pn * sign }
  if c ≠ EOF then
    ungetch c
  return c

/-- The part of `getint` for a character that can start a number. -/
def readNumber (fuel : Nat) (c : Int) : Exec State Int := do
  let sign : Int32 := if c = MINUS then -1 else 1
  if c = PLUS ∨ c = MINUS then
    let _ ← getch
  readDigits fuel sign

/-- The character can start no number, and it is not the end of the file. -/
def StartsNone (c : Int) : Prop := ¬isdigit c ∧ c ≠ EOF ∧ c ≠ PLUS ∧ c ≠ MINUS

instance (c : Int) : Decidable (StartsNone c) := inferInstanceAs (Decidable (_ ∧ _))

def getint (fuel : Nat) : Exec State Int := do
  let c ← loop skipSpace fuel ()
  if StartsNone c then
    ungetch c
    return 0
  else readNumber fuel c

/-- The characters that `getch` is going to deliver before the end of the file. -/
def State.delivered (s : State) : List Int := s.buf.map Int8.toInt ++ s.input.map fun b => (b.toNat : Int)

/-- The next character of a stream that ends for good. -/
def nextChar (chars : List Int) : Int := chars.headD EOF

/-- What is left behind a sign. -/
def afterSign (chars : List Int) : List Int :=
  if chars.head? = some PLUS ∨ chars.head? = some MINUS then chars.tail else chars

/-- The value of digits. -/
def digitsValue (digits : List Int) : Int := digits.foldl (fun n c => 10 * n + (c - 48)) 0

/-- The value with the sign that stands in front of the digits. -/
def signedValue (chars : List Int) : Int :=
  let n := digitsValue ((afterSign chars).takeWhile isdigit)
  if chars.head? = some MINUS then -n else n

/-- The characters begin with a number that fits an `int`. -/
def StartsNumber (chars : List Int) : Prop :=
  (afterSign chars).takeWhile isdigit ≠ [] ∧ -2147483648 ≤ signedValue chars ∧ signedValue chars ≤ 2147483647

/-- The right result, for the characters behind the white space: a number is stored and the character behind it is
delivered next; a character that can start no number is delivered next, and nothing is stored. -/
def Right (chars : List Int) (pn : Int32) (ret : Int) (s : State) : Prop :=
  (StartsNumber chars → s.pn.toInt = signedValue chars ∧
    ∃ s', getch.run s = .ok (nextChar ((afterSign chars).dropWhile isdigit), s')) ∧
  ∀ c ∈ chars.head?, StartsNone c → ret = 0 ∧ s.pn = pn ∧ ∃ s', getch.run s = .ok (c, s')

/-- `getint` returns, and right. -/
def Meets (s : State) : Prop :=
  ∃ n ret s', (∀ fuel, n < fuel → (getint fuel).run s = .ok (ret, s')) ∧
    Right (s.delivered.dropWhile isspace) s.pn ret s'

section Stream

theorem run_getch (s : State) : ∃ s', getch.run s = .ok (nextChar s.delivered, s') ∧
    s'.delivered = s.delivered.tail ∧ s'.pn = s.pn ∧ s'.buf.length < BUFSIZE := by
  obtain ⟨buf, input, pn, out, fits⟩ := s
  cases buf with
  | cons c buf => exact ⟨_, rfl, rfl, rfl, fits⟩
  | nil =>
    cases input with
    | cons b input => exact ⟨_, rfl, rfl, rfl, show 0 < BUFSIZE by decide⟩
    | nil => exact ⟨_, rfl, rfl, rfl, show 0 < BUFSIZE by decide⟩

theorem run_ungetch (hroom : s.buf.length < BUFSIZE) (c : Int) : ∃ s', (ungetch c).run s = .ok ((), s') ∧
    s'.delivered = (Int8.ofInt c).toInt :: s.delivered ∧ s'.pn = s.pn :=
  ⟨_, dif_pos hroom, rfl, rfl⟩

theorem nextChar_eq_of_run (h : getch.run s = .ok (c, s')) : c = nextChar s.delivered := by
  obtain ⟨t, ht, -⟩ := run_getch s
  cases ht.symm.trans h
  rfl

theorem run_skipSpace (s : State) : ∃ s', (skipSpace ()).run s =
    .ok (if isspace (nextChar s.delivered) then .inl () else .inr (nextChar s.delivered), s') ∧
      s'.delivered = s.delivered.tail ∧ s'.pn = s.pn ∧ s'.buf.length < BUFSIZE := by
  obtain ⟨t, hrun, hkeeps⟩ := run_getch s
  refine ⟨t, ?_, hkeeps⟩
  rw [skipSpace, run_bind_of_ok hrun]
  split <;> rfl

/-- The first character behind the white space. -/
theorem run_loop_skipSpace (s : State) : ∃ c s', (∀ fuel, s.delivered.length < fuel →
    (loop skipSpace fuel ()).run s = .ok (c, s')) ∧ c = nextChar (s.delivered.dropWhile isspace) ∧
      s'.delivered = (s.delivered.dropWhile isspace).tail ∧ s'.pn = s.pn ∧ s'.buf.length < BUFSIZE := by
  refine loop_total
    (fun n _ (t : State) =>
      t.delivered.length = n ∧ t.delivered.dropWhile isspace = s.delivered.dropWhile isspace ∧ t.pn = s.pn)
    (fun c (t : State) => c = nextChar (s.delivered.dropWhile isspace) ∧
      t.delivered = (s.delivered.dropWhile isspace).tail ∧ t.pn = s.pn ∧ t.buf.length < BUFSIZE) ?_ ⟨rfl, rfl, rfl⟩
  rintro n ⟨⟩ t ⟨hlength, hdrop, hpn⟩
  obtain ⟨t', hrun, hrest, hpn', hroom⟩ := run_skipSpace t
  cases hchars : t.delivered with
  | nil =>
    -- the end of the file is no white space
    rw [hchars] at hdrop hrest hrun
    rw [← hdrop]
    exact .inr ⟨EOF, t', hrun, rfl, hrest, hpn'.trans hpn, hroom⟩
  | cons c rest =>
    rw [hchars] at hdrop hrest hlength hrun
    by_cases hc : isspace c = true
    · refine .inl ⟨rest.length, (), t', ?_, hrun.trans ?_, congrArg List.length hrest, ?_, hpn'.trans hpn⟩
      · rw [← hlength]
        exact Nat.lt_succ_self _
      · rw [nextChar, List.headD_cons, if_pos hc]
      · rw [← hdrop, hrest, List.tail_cons, List.dropWhile_cons_of_pos hc]
    · rw [List.dropWhile_cons_of_neg hc] at hdrop
      rw [← hdrop]
      refine .inr ⟨c, t', hrun.trans ?_, rfl, hrest, hpn'.trans hpn, hroom⟩
      rw [nextChar, List.headD_cons, if_neg hc]

theorem run_readDigit_zero (hs : s.delivered = 0 :: rest) :
    ∃ s', (readDigit ()).run s = .ok (.inr 0, s') ∧ s'.delivered = rest ∧ s'.pn = s.pn ∧ s'.buf.length < BUFSIZE := by
  obtain ⟨t, hrun, hrest, hpn, hroom⟩ := run_getch s
  rw [hs] at hrun hrest
  exact ⟨t, run_bind_of_ok hrun _, hrest, hpn, hroom⟩

theorem run_readDigit_nonzero (hs : nextChar s.delivered ≠ 0) :
    ∃ s', (readDigit ()).run s = .ok (.inl (), s') ∧ s'.delivered = s.delivered.tail ∧
      s'.pn = 10 * s.pn + Int32.ofInt (nextChar s.delivered - 48) := by
  obtain ⟨t, hrun, hrest, hpn, -⟩ := run_getch s
  refine ⟨{ t with pn := 10 * t.pn + Int32.ofInt (nextChar s.delivered - 48) }, ?_, hrest, by simp only [hpn]⟩
  rw [readDigit, run_bind_of_ok hrun, if_pos hs]
  rfl

/-- The loop for the digits ends at the first NUL. -/
theorem run_loop_readDigit (hfront : 0 ∉ front) (hs : s.delivered = front ++ 0 :: rest) :
    ∃ s', (∀ fuel, front.length < fuel → (loop readDigit fuel ()).run s = .ok (0, s')) ∧ s'.delivered = rest ∧
      s'.pn = front.foldl (fun n c => 10 * n + Int32.ofInt (c - 48)) s.pn ∧ s'.buf.length < BUFSIZE := by
  induction front generalizing s with
  | nil =>
    obtain ⟨t, hrun, hrest, hpn, hroom⟩ := run_readDigit_zero hs
    refine ⟨t, fun fuel hfuel => ?_, hrest, hpn, hroom⟩
    obtain ⟨fuel, rfl⟩ := exists_fuel hfuel
    exact run_loop_done hrun fuel
  | cons c front ih =>
    have hnext : nextChar s.delivered = c := by
      rw [hs]
      rfl
    have hc : nextChar s.delivered ≠ 0 := fun h => hfront (by simp [← hnext, h])
    obtain ⟨t, hrun, hrest, hpn⟩ := run_readDigit_nonzero hc
    rw [hs] at hrest
    obtain ⟨u, hloop, hu, hupn, hroom⟩ := ih (List.not_mem_of_not_mem_cons hfront) hrest
    refine ⟨u, fun fuel hfuel => ?_, hu, ?_, hroom⟩
    · obtain ⟨fuel, rfl⟩ := exists_fuel hfuel
      rw [run_loop_next hrun]
      exact hloop fuel (Nat.lt_of_succ_lt_succ hfuel)
    · rw [hupn, hpn, hnext]
      rfl

/-- Without a NUL among the characters the loop does not end, not even at the end of the file. -/
theorem readDigit_diverges (hs : 0 ∉ s.delivered) (fuel : Nat) : (loop readDigit fuel ()).run s = .error .fuel := by
  refine loop_diverges (fun _ t => 0 ∉ t.delivered) (fun _ t ht => .inr ?_) fuel hs
  have hc : nextChar t.delivered ≠ 0 := by
    cases hchars : t.delivered with
    | nil => decide
    | cons c rest =>
      rw [hchars] at ht
      exact fun h => ht (h ▸ List.mem_cons_self)
  obtain ⟨u, hrun, hrest, -⟩ := run_readDigit_nonzero hc
  exact ⟨(), u, hrun, hrest ▸ fun h => ht (List.mem_of_mem_tail h)⟩

end Stream

section Run

variable {s : State} {chars : List Int}

theorem meets_iff_of_run {ret : Int} (h : ∀ fuel, n < fuel → (getint fuel).run s = .ok (ret, s')) :
    Meets s ↔ Right (s.delivered.dropWhile isspace) s.pn ret s' := by
  constructor
  · rintro ⟨m, ret', s'', hrun, hright⟩
    cases eq_of_fuel h hrun
    exact hright
  · exact fun hright => ⟨n, ret, s', h, hright⟩

theorem not_meets_of_diverges (h : ∀ fuel, n < fuel → (getint fuel).run s = .error .fuel) : ¬Meets s := by
  rintro ⟨m, ret, s', hrun, -⟩
  exact nomatch eq_of_fuel h hrun

/-- No number: the character is pushed back. -/
theorem run_getint_none (hs : s.delivered.dropWhile isspace = c :: rest)
    (hc : StartsNone c) : ∃ s', (∀ fuel, s.delivered.length < fuel → (getint fuel).run s = .ok (0, s')) ∧
      s'.delivered = (Int8.ofInt c).toInt :: rest ∧ s'.pn = s.pn := by
  obtain ⟨c', t, hskip, hc', hrest, hpn, hroom⟩ := run_loop_skipSpace s
  obtain ⟨u, hunget, hdelivered, hpn'⟩ := run_ungetch hroom c
  rw [hs] at hc' hrest
  obtain rfl : c' = c := hc'
  refine ⟨u, fun fuel hfuel => ?_, hdelivered.trans (congrArg _ hrest), hpn'.trans hpn⟩
  rw [getint, run_bind_of_ok (hskip fuel hfuel), if_pos hc, run_bind_of_ok hunget, run_pure]

theorem nextChar_eq_iff (hc : c ≠ EOF) : nextChar chars = c ↔ chars.head? = some c := by
  cases chars with
  | nil => exact ⟨fun h => absurd h.symm hc, nofun⟩
  | cons d chars => exact Option.some_inj.symm

/-- A number: the loop for the digits starts behind the first character that may be one. -/
theorem run_getint_number (hs : s.delivered.dropWhile isspace = chars) (hc : ¬StartsNone (nextChar chars)) :
    ∃ t : State, t.delivered = (afterSign chars).tail ∧ ∀ fuel, s.delivered.length < fuel →
      (getint fuel).run s = (readDigits fuel (if chars.head? = some MINUS then -1 else 1)).run t := by
  obtain ⟨c, t, hskip, rfl, hrest, -⟩ := run_loop_skipSpace s
  obtain ⟨t', hgetch, hrest', -⟩ := run_getch t
  rw [hs] at hskip hrest
  have hplus : nextChar chars = PLUS ↔ chars.head? = some PLUS := nextChar_eq_iff (by decide)
  have hminus : nextChar chars = MINUS ↔ chars.head? = some MINUS := nextChar_eq_iff (by decide)
  by_cases hsign : chars.head? = some PLUS ∨ chars.head? = some MINUS
  · refine ⟨t', ?_, fun fuel hfuel => ?_⟩
    · rw [afterSign, if_pos hsign, hrest', hrest]
    · rw [getint, run_bind_of_ok (hskip fuel hfuel), if_neg hc, readNumber]
      simp only [hplus, hminus, if_pos hsign, run_bind_of_ok hgetch]
  · refine ⟨t, ?_, fun fuel hfuel => ?_⟩
    · rw [afterSign, if_neg hsign, hrest]
    · rw [getint, run_bind_of_ok (hskip fuel hfuel), if_neg hc, readNumber]
      simp only [hplus, hminus, if_neg hsign]

theorem run_readDigits (hfront : 0 ∉ front) (hs : s.delivered = front ++ 0 :: rest)
    (sign : Int32) : ∃ s', (∀ fuel, front.length < fuel → (readDigits fuel sign).run s = .ok (0, s')) ∧
      s'.delivered = 0 :: rest ∧ s'.pn = front.foldl (fun n c => 10 * n + Int32.ofInt (c - 48)) 0 * sign := by
  obtain ⟨t, hloop, hrest, hpn, hroom⟩ := run_loop_readDigit (s := { s with pn := 0 }) hfront hs
  obtain ⟨u, hunget, hdelivered, hpn'⟩ := run_ungetch (s := { t with pn := t.pn * sign }) hroom 0
  refine ⟨u, fun fuel hfuel => ?_, hdelivered.trans (congrArg _ hrest), ?_⟩
  · rw [readDigits, run_bind_of_ok (run_modify _ _), run_bind_of_ok (hloop fuel hfuel), run_bind_of_ok (run_modify _ _),
      if_pos (by decide), run_bind_of_ok hunget, run_pure]
  · rw [hpn', hpn]

theorem readDigits_diverges (hs : 0 ∉ s.delivered) (fuel : Nat) (sign : Int32) :
    (readDigits fuel sign).run s = .error .fuel := by
  have hloop : (loop readDigit fuel ()).run { s with pn := 0 } = .error .fuel :=
    readDigit_diverges (s := { s with pn := 0 }) hs fuel
  rw [readDigits, run_bind_of_ok (run_modify _ _), run_bind, hloop]

end Run

section Value

variable {chars digits : List Int}

/-- The `int` is the value modulo 2 ^ 32. -/
theorem foldl_ofInt (digits : List Int) (n : Int) :
    digits.foldl (fun n c => 10 * n + Int32.ofInt (c - 48)) (Int32.ofInt n) =
      Int32.ofInt (digits.foldl (fun n c => 10 * n + (c - 48)) n) := by
  induction digits generalizing n with
  | nil => rfl
  | cons c digits ih =>
    have hstep : 10 * Int32.ofInt n + Int32.ofInt (c - 48) = Int32.ofInt (10 * n + (c - 48)) := by
      rw [Int32.ofInt_add, Int32.ofInt_mul]
      rfl
    rw [List.foldl_cons, List.foldl_cons, hstep, ih]

theorem foldl_eq (digits : List Int) (n : Int) :
    digits.foldl (fun n c => 10 * n + (c - 48)) n = 10 ^ digits.length * n + digitsValue digits := by
  induction digits generalizing n with
  | nil => simp [digitsValue]
  | cons c digits ih =>
    rw [digitsValue, List.foldl_cons, List.foldl_cons, ih, ih (10 * 0 + _), List.length_cons]
    ring

theorem digitsValue_cons (c : Int) (digits : List Int) :
    digitsValue (c :: digits) = 10 ^ digits.length * (c - 48) + digitsValue digits := by
  rw [digitsValue, List.foldl_cons, foldl_eq, Int.mul_zero, Int.zero_add]

theorem digitsValue_nonneg (h : ∀ c ∈ digits, isdigit c = true) : 0 ≤ digitsValue digits := by
  induction digits with
  | nil => exact Int.le_refl 0
  | cons c digits ih =>
    obtain ⟨hc, hdigits⟩ := List.forall_mem_cons.mp h
    have hc : 48 ≤ c ∧ c ≤ 57 := by simpa [isdigit] using hc
    have hmul : 0 ≤ 10 ^ digits.length * (c - 48) := Int.mul_nonneg (by positivity) (by omega)
    rw [digitsValue_cons]
    exact Int.add_nonneg hmul (ih hdigits)

/-- Without its first digit a number is smaller, or the same if the digit is a 0. -/
theorem digitsValue_le_cons (hc : 48 ≤ c) (digits : List Int) :
    digitsValue digits ≤ digitsValue (c :: digits) ∧ (digitsValue digits = digitsValue (c :: digits) ↔ c = 48) := by
  have hpow : (0 : Int) < 10 ^ digits.length := by positivity
  have hmul : 0 ≤ 10 ^ digits.length * (c - 48) := Int.mul_nonneg hpow.le (by omega)
  have hzero : 10 ^ digits.length * (c - 48) = 0 ↔ c = 48 := by
    rw [Int.mul_eq_zero]
    omega
  rw [digitsValue_cons]
  omega

/-- A value that fits comes out of the `int` again. -/
theorem toInt_signed {negative : Prop} [Decidable negative] {n : Int}
    (hlow : -2147483648 ≤ if negative then -n else n) (hhigh : (if negative then -n else n) ≤ 2147483647) :
    (Int32.ofInt n * if negative then -1 else 1).toInt = if negative then -n else n := by
  have hmul : (Int32.ofInt n * if negative then -1 else 1) = Int32.ofInt (if negative then -n else n) := by
    split
    · rw [← Int.mul_neg_one, Int32.ofInt_mul]
      rfl
    · exact Int32.mul_one _
  rw [hmul, Int32.toInt_ofInt_of_le hlow (by omega)]

theorem takeWhile_nonzero (hfront : 0 ∉ front) (rest : List Int) :
    (front ++ 0 :: rest).takeWhile (· ≠ 0) = front := by
  have hall : ∀ c ∈ front, decide (c ≠ 0) = true := fun c hc => decide_eq_true fun h => hfront (h ▸ hc)
  rw [List.takeWhile_append_of_pos hall]
  simp

end Value

section Number

variable {s : State} {chars front rest : List Int}

/-- A number that fits an `int`: without its first digit it has to be the same, and a NUL has to follow it. -/
theorem stored_iff (hnumber : StartsNumber chars) (htail : (afterSign chars).tail = front ++ 0 :: rest)
    (hfront : 0 ∉ front) (hpn : s.pn = front.foldl (fun n c => 10 * n + Int32.ofInt (c - 48)) (Int32.ofInt 0) *
      if chars.head? = some MINUS then -1 else 1) :
    (s.pn.toInt = signedValue chars ∧ nextChar ((afterSign chars).dropWhile isdigit) = 0) ↔
      (afterSign chars).head? = some 48 ∧ ((afterSign chars).dropWhile isdigit).head? = some 0 := by
  obtain ⟨hdigits, hlow, hhigh⟩ := hnumber
  rw [nextChar_eq_iff (by decide)]
  refine and_congr_left fun hbehind => ?_
  obtain ⟨behind, hbehind⟩ := List.head?_eq_some_iff.mp hbehind
  obtain ⟨d, digits, htake⟩ := List.exists_cons_of_ne_nil hdigits
  have hall : ∀ c ∈ d :: digits, isdigit c = true := fun c hc => List.mem_takeWhile_imp (htake ▸ hc)
  have hsplit : afterSign chars = d :: (digits ++ 0 :: behind) := by
    rw [← List.takeWhile_append_dropWhile (p := isdigit) (l := afterSign chars), htake, hbehind, List.cons_append]
  have hsame : front = digits := by
    have hnonzero : 0 ∉ digits := fun h => absurd (hall 0 (List.mem_cons_of_mem d h)) (by decide)
    rw [hsplit, List.tail_cons] at htail
    rw [← takeWhile_nonzero hfront rest, ← htail, takeWhile_nonzero hnonzero]
  subst hsame
  have hd : 48 ≤ d ∧ d ≤ 57 := by simpa [isdigit] using hall d List.mem_cons_self
  have hnonneg := digitsValue_nonneg fun c hc => hall c (List.mem_cons_of_mem d hc)
  obtain ⟨hle, heq⟩ := digitsValue_le_cons hd.1 front
  simp only [signedValue, htake] at hlow hhigh ⊢
  rw [hpn, foldl_ofInt, ← digitsValue, hsplit, List.head?_cons, Option.some_inj, ← heq]
  by_cases hminus : chars.head? = some MINUS
  · rw [if_pos hminus] at hlow hhigh
    rw [toInt_signed (by rw [if_pos hminus]; omega) (by rw [if_pos hminus]; omega), if_pos hminus, if_pos hminus]
    omega
  · rw [if_neg hminus] at hlow hhigh
    rw [toInt_signed (by rw [if_neg hminus]; omega) (by rw [if_neg hminus]; omega), if_neg hminus, if_neg hminus]

end Number

section Main

variable {s : State} {c : Int} {rest : List Int}

theorem delivered_bounds (s : State) : ∀ c ∈ s.delivered, -128 ≤ c ∧ c ≤ 255 := by
  intro c hc
  rcases List.mem_append.mp hc with hbuf | hinput
  · obtain ⟨b, -, rfl⟩ := List.mem_map.mp hbuf
    have hlow := b.le_toInt
    have hhigh := b.toInt_lt
    omega
  · obtain ⟨b, -, rfl⟩ := List.mem_map.mp hinput
    have hb := b.toNat_lt
    omega

/-- A character that can start no number is delivered again if the buffer can hold it. -/
theorem meets_iff_of_none (hs : s.delivered.dropWhile isspace = c :: rest) (hc : StartsNone c) : Meets s ↔ c < 128 := by
  obtain ⟨s', hrun, hdelivered, hpn⟩ := run_getint_none hs hc
  obtain ⟨t, hgetch, -⟩ := run_getch s'
  have hbounds := delivered_bounds s c ((List.dropWhile_sublist _).mem (hs ▸ List.mem_cons_self))
  have hbyte : (Int8.ofInt c).toInt = c ↔ c < 128 := by
    have hlt := (Int8.ofInt c).toInt_lt
    exact ⟨fun h => by omega, fun h => Int8.toInt_ofInt_of_le hbounds.1 (by omega)⟩
  have hnext : nextChar s'.delivered = (Int8.ofInt c).toInt := by
    rw [hdelivered]
    rfl
  have hnone : ¬StartsNumber (c :: rest) := by
    have hsign : ¬((c :: rest).head? = some PLUS ∨ (c :: rest).head? = some MINUS) := by simpa using hc.2.2
    rw [StartsNumber, afterSign, if_neg hsign, List.takeWhile_cons_of_neg hc.1]
    exact fun h => h.1 rfl
  rw [meets_iff_of_run hrun, hs, ← hbyte]
  constructor
  · intro h
    obtain ⟨-, -, s'', hget⟩ := h.2 c rfl hc
    exact hnext.symm.trans (nextChar_eq_of_run hget).symm
  · intro h
    refine ⟨fun hnumber => absurd hnumber hnone, ?_⟩
    rintro _ ⟨⟩ -
    exact ⟨rfl, hpn, t, by rw [hgetch, hnext, h]⟩

theorem meets_iff_of_number (hs : s.delivered.dropWhile isspace = c :: rest) (hc : ¬StartsNone c) :
    Meets s ↔ 0 ∈ (afterSign (c :: rest)).tail ∧ (StartsNumber (c :: rest) →
      (afterSign (c :: rest)).head? = some 48 ∧ ((afterSign (c :: rest)).dropWhile isdigit).head? = some 0) := by
  obtain ⟨t, ht, hrun⟩ := run_getint_number hs hc
  by_cases hzero : 0 ∈ (afterSign (c :: rest)).tail
  · obtain ⟨front, left, htail, hfront⟩ := List.eq_append_cons_of_mem hzero
    obtain ⟨s', hdigits, hdelivered, hpn⟩ := run_readDigits hfront (ht.trans htail) _
    obtain ⟨u, hgetch, -⟩ := run_getch s'
    have hreturn : ∀ fuel, max s.delivered.length front.length < fuel → (getint fuel).run s = .ok (0, s') := by
      intro fuel hfuel
      rw [hrun fuel (by omega), hdigits fuel (by omega)]
    have hnext (c : Int) : (∃ s'', getch.run s' = .ok (c, s'')) ↔ c = 0 := by
      rw [hdelivered] at hgetch
      refine ⟨?_, fun h => ⟨u, h ▸ hgetch⟩⟩
      rintro ⟨s'', hget⟩
      cases hgetch.symm.trans hget
      rfl
    have hnone : ∀ d ∈ (c :: rest).head?, StartsNone d → (0 : Int) = 0 ∧ s'.pn = s.pn ∧
      ∃ s'', getch.run s' = .ok (d, s'') := by
      rintro _ ⟨⟩ hd
      exact absurd hd hc
    rw [meets_iff_of_run hreturn, hs, Right, and_iff_left hnone, and_iff_right hzero]
    refine forall_congr' fun hnumber => ?_
    rw [hnext]
    exact stored_iff hnumber htail hfront hpn
  · refine iff_of_false (not_meets_of_diverges (n := s.delivered.length) fun fuel hfuel => ?_) fun h => hzero h.1
    rw [hrun fuel hfuel]
    exact readDigits_diverges (ht.symm ▸ hzero) fuel _

/-- The end of the file is never handled. Otherwise a character that can start no number has to fit a `char`; and
behind the first character that may be a digit there has to be a NUL, which has to follow a number that fits an `int`
directly, and the number has to begin with the digit 0. -/
theorem getint_meets_iff (s : State) : Meets s ↔ ∃ c rest, s.delivered.dropWhile isspace = c :: rest ∧
    if StartsNone c then c < 128
    else 0 ∈ (afterSign (c :: rest)).tail ∧ (StartsNumber (c :: rest) →
      (afterSign (c :: rest)).head? = some 48 ∧ ((afterSign (c :: rest)).dropWhile isdigit).head? = some 0) := by
  cases hs : s.delivered.dropWhile isspace with
  | nil =>
    obtain ⟨t, ht, hrun⟩ := run_getint_number hs (by decide)
    have hempty : 0 ∉ t.delivered := by
      rw [ht]
      decide
    refine iff_of_false (not_meets_of_diverges (n := s.delivered.length) fun fuel hfuel => ?_) ?_
    · rw [hrun fuel hfuel]
      exact readDigits_diverges hempty fuel _
    · rintro ⟨c, rest, h, -⟩
      exact nomatch h
  | cons c rest =>
    simp only [List.cons.injEq, and_assoc, exists_and_left, exists_eq_left']
    split
    next hc => exact meets_iff_of_none hs hc
    next hc => exact meets_iff_of_number hs hc

/-- The program before its first call, with this input. -/
def State.start (input : List UInt8) : State := { buf := [], input, pn := 0, out := [], fits := by decide }

/-- The digit 5 and the end of the file: no budget is enough. The digits 12 and a NUL: a 2 is stored. -/
theorem getint_misses : (∀ fuel, 1 < fuel → (getint fuel).run (.start (ascii "5")) = .error .fuel) ∧
    ((getint 5).run (.start (ascii "12" ++ [0]))).map (fun r => r.2.pn) = .ok 2 := by
  refine ⟨fun fuel hfuel => ?_, by decide⟩
  obtain ⟨t, ht, hrun⟩ := run_getint_number (s := .start (ascii "5")) rfl (by decide)
  have hempty : 0 ∉ t.delivered := by
    rw [ht]
    decide
  rw [hrun fuel hfuel]
  exact readDigits_diverges hempty fuel _

end Main

end basic_data_struct.c_prog_lang
