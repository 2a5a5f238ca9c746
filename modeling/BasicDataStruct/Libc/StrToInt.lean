import BasicDataStruct.Machine.Exec
import BasicDataStruct.Stdio.CString

open machine stdio

namespace basic_data_struct.libc

variable {rest s1 : List UInt8}

abbrev DASH : UInt8 := 45

abbrev Stdout := List UInt8

def printf (text : List UInt8) : Exec Stdout Unit := Exec.modify (· ++ text)

/-- The loop of `allisdigit`, which goes on behind a wrong character. -/
def allisdigitLoop : Bool → List UInt8 → Exec Stdout Bool
  | ret, [] => pure ret
  | ret, c :: s =>
    if isDigit c then allisdigitLoop ret s
    else do
      printf (ascii "error:" ++ c :: ascii " is not an digit character\n")
      allisdigitLoop false s

def allisdigit (s : List UInt8) : Exec Stdout Bool := allisdigitLoop true s

def atoi (s : List UInt8) : Int := (Int32.ofInt (atol s)).toInt

/-- The second token of a range, behind a first one that is accepted. -/
def judgeSecond (s1 rest : List UInt8) : Exec Stdout Int :=
  match strtok rest [DASH] with
  | none => do
    printf (ascii "please input two integer,such as 8-13\n")
    return 0
  | some (s2, _) => do
    if ← allisdigit s2 then
      if atoi s2 < 16 ∧ atoi s2 ≥ 0 then
        -- the loop over the range of services has no body
        if atoi s2 > atoi s1 then return 0
        else
          printf (s2 ++ (ascii " is not bigger than " ++ (s1 ++ ascii "\n")))
          return 0
      else
        printf (s2 ++ ascii " is not between 0 and 15\n")
        return -1
    else return 0

/-- A string with a dash. The format string of the message for a first number that is too large has a `%s` without
an argument. -/
def judgeRange (ch : List UInt8) : Exec Stdout Int :=
  match strtok ch [DASH] with
  | none => do
    printf (ascii "error:char pointer is null,please input right string\n")
    return -1
  | some (s1, rest) => do
    if ← allisdigit s1 then
      if atoi s1 < 16 ∧ atoi s1 ≥ 0 then judgeSecond s1 rest
      else Exec.fail .uninit
    else return 0

/-- A string without a dash. -/
def judgeNumber (ch : List UInt8) : Exec Stdout Int := do
  if ← allisdigit ch then
    if atoi ch < 16 ∧ atoi ch ≥ 0 then return 0
    else
      printf (ascii "error:" ++ (ch ++ ascii " is not between 0 and 15\n"))
      return -1
  else return -1

/-- The string is copied into `char ch[5]`. -/
def trans_str2int_judge (serviceid_str : List UInt8) : Exec Stdout Int := do
  Exec.inBounds serviceid_str.length 5
  if (strchr serviceid_str DASH).isSome then judgeRange serviceid_str else judgeNumber serviceid_str

/-- A decimal number. -/
structure IsNumber (s : List UInt8) : Prop where
  ne_nil : s ≠ []
  digits : ∀ b ∈ s, isDigit b = true

/-- Two numbers with a dash between them, the first one smaller than the second. -/
def IsRange (s : List UInt8) : Prop :=
  ∃ a b, s = a ++ DASH :: b ∧ IsNumber a ∧ IsNumber b ∧ value a < value b ∧ value b ≤ 15

/-- A service or a range of services. -/
def Valid (s : List UInt8) : Prop := IsNumber s ∧ value s ≤ 15 ∨ IsRange s

/-- The function returns, and with the right answer. -/
def Judges (s : List UInt8) (out : Stdout) : Prop :=
  ∃ ret out', (trans_str2int_judge s).run out = .ok (ret, out') ∧ (Valid s ∧ ret = 0 ∨ ¬Valid s ∧ ret = -1)

/-- The first token is a service, the second one a number beyond the services. -/
def BeyondServices (s : List UInt8) : Prop :=
  ∃ s1 rest s2 rest', strtok s [DASH] = some (s1, rest) ∧ strtok rest [DASH] = some (s2, rest') ∧
    IsNumber s1 ∧ value s1 ≤ 15 ∧ IsNumber s2 ∧ 15 < value s2

section Code

variable {s : List UInt8}

theorem run_allisdigitLoop (ret : Bool) (s : List UInt8) (out : Stdout) :
    ∃ out', (allisdigitLoop ret s).run out = .ok (ret && s.all isDigit, out') := by
  induction s generalizing ret out with
  | nil => exact ⟨out, by simp [allisdigitLoop]⟩
  | cons c s ih =>
    rw [allisdigitLoop]
    by_cases hc : isDigit c = true
    · obtain ⟨out', hrun⟩ := ih ret out
      exact ⟨out', by simpa [hc] using hrun⟩
    · obtain ⟨out', hrun⟩ := ih false (out ++ (ascii "error:" ++ c :: ascii " is not an digit character\n"))
      refine ⟨out', ?_⟩
      rw [if_neg hc, printf, Exec.run_bind_of_ok (Exec.run_modify _ _), hrun]
      simp [hc]

theorem run_allisdigit (s : List UInt8) (out : Stdout) :
    ∃ out', (allisdigit s).run out = .ok (s.all isDigit, out') := by
  obtain ⟨out', hrun⟩ := run_allisdigitLoop true s out
  exact ⟨out', hrun⟩

/-- A string of digits that fits the array is its value. -/
theorem atoi_digits (hdigits : s.all isDigit = true) (hlength : s.length ≤ 4) : atoi s = value s := by
  have hdigits : ∀ b ∈ s, isDigit b = true := by simpa using hdigits
  have hlt : value s < 10 ^ s.length := value_lt_pow hdigits
  have hpow : 10 ^ s.length ≤ 10 ^ 4 := Nat.pow_le_pow_right (by decide) hlength
  rw [atoi, atol_digits hdigits (by omega), Int32.toInt_ofInt_of_le (by omega) (by omega)]

theorem run_judgeNumber (hlength : s.length ≤ 4) (out : Stdout) : ∃ out',
    (judgeNumber s).run out = .ok (if s.all isDigit ∧ value s ≤ 15 then 0 else -1, out') := by
  obtain ⟨out', hall⟩ := run_allisdigit s out
  rw [judgeNumber, Exec.run_bind_of_ok hall]
  by_cases hdigits : s.all isDigit = true
  · have hatoi := atoi_digits hdigits hlength
    by_cases hvalue : value s ≤ 15
    · refine ⟨out', ?_⟩
      rw [if_pos hdigits, if_pos (by omega), if_pos ⟨hdigits, hvalue⟩]
      rfl
    · refine ⟨out' ++ (ascii "error:" ++ (s ++ ascii " is not between 0 and 15\n")), ?_⟩
      rw [if_pos hdigits, if_neg (by omega), if_neg fun h => hvalue h.2]
      rfl
  · refine ⟨out', ?_⟩
    rw [if_neg hdigits, if_neg fun h => hdigits h.1]
    rfl

/-- What the second token decides. -/
def secondVerdict (rest : List UInt8) : Int :=
  match strtok rest [DASH] with
  | none => 0
  | some (s2, _) => if s2.all isDigit ∧ 15 < value s2 then -1 else 0

theorem run_judgeSecond (s1 : List UInt8) (hlength : rest.length ≤ 4) (out : Stdout) :
    ∃ out', (judgeSecond s1 rest).run out = .ok (secondVerdict rest, out') := by
  rw [judgeSecond, secondVerdict]
  cases htoken : strtok rest [DASH] with
  | none => exact ⟨_, rfl⟩
  | some token =>
    obtain ⟨s2, rest'⟩ := token
    obtain ⟨-, hlength2, -⟩ := token_of_strtok htoken
    obtain ⟨out', hall⟩ := run_allisdigit s2 out
    simp only [Exec.run_bind_of_ok hall]
    by_cases hdigits : s2.all isDigit = true
    · have hatoi := atoi_digits hdigits (by omega)
      by_cases hvalue : 15 < value s2
      · refine ⟨out' ++ (s2 ++ ascii " is not between 0 and 15\n"), ?_⟩
        rw [if_pos hdigits, if_neg (by omega), if_pos ⟨hdigits, hvalue⟩]
        rfl
      · have hnot : ¬(s2.all isDigit = true ∧ 15 < value s2) := fun h => hvalue h.2
        rw [if_pos hdigits, if_pos (by omega), if_neg hnot]
        split
        · exact ⟨out', rfl⟩
        · exact ⟨out' ++ (s2 ++ (ascii " is not bigger than " ++ (s1 ++ ascii "\n"))), rfl⟩
    · refine ⟨out', ?_⟩
      rw [if_neg hdigits, if_neg fun h => hdigits h.1]
      rfl

end Code

section Strings

variable {s rest : List UInt8}

theorem IsNumber.all (h : IsNumber s) : s.all isDigit = true := List.all_eq_true.mpr h.digits

theorem IsNumber.free (h : IsNumber s) : ∀ b ∈ s, b ∉ [DASH] :=
  fun b hb hdash => absurd (h.digits b hb) (List.mem_singleton.mp hdash ▸ by decide)

theorem isNumber_of_token {token : List UInt8} (htoken : strtok s [DASH] = some (token, rest))
    (hdigits : token.all isDigit = true) : IsNumber token :=
  ⟨(token_of_strtok htoken).1, List.all_eq_true.mp hdigits⟩

/-- The tokens of a range. -/
theorem IsRange.tokens (h : IsRange s) : ∃ a b, strtok s [DASH] = some (a, b) ∧ strtok b [DASH] = some (b, []) ∧
    IsNumber a ∧ value a < value b ∧ value b ≤ 15 := by
  obtain ⟨a, b, rfl, ha, hb, hlt, hle⟩ := h
  exact ⟨a, b, strtok_append ha.ne_nil ha.free List.mem_cons_self b, strtok_self hb.ne_nil hb.free, ha, hlt, hle⟩

theorem IsRange.dash (h : IsRange s) : DASH ∈ s := by
  obtain ⟨a, b, rfl, -⟩ := h
  simp

theorem valid_iff_of_dash (h : DASH ∈ s) : Valid s ↔ IsRange s :=
  or_iff_right fun hnumber => hnumber.1.free DASH h List.mem_cons_self

theorem valid_iff_of_no_dash (h : DASH ∉ s) : Valid s ↔ IsNumber s ∧ value s ≤ 15 :=
  or_iff_left fun hrange => h hrange.dash

theorem secondVerdict_eq_zero_or (rest : List UInt8) : secondVerdict rest = 0 ∨ secondVerdict rest = -1 := by
  rw [secondVerdict]
  split
  · exact .inl rfl
  · split
    · exact .inr rfl
    · exact .inl rfl

theorem secondVerdict_eq_neg_one_iff : secondVerdict rest = -1 ↔
    ∃ s2 rest', strtok rest [DASH] = some (s2, rest') ∧ IsNumber s2 ∧ 15 < value s2 := by
  rw [secondVerdict]
  cases htoken : strtok rest [DASH] with
  | none => simp
  | some token =>
    obtain ⟨s2, rest'⟩ := token
    constructor
    · intro h
      have hbeyond : s2.all isDigit = true ∧ 15 < value s2 := by
        by_contra hnot
        exact absurd ((if_neg hnot).symm.trans h) (by decide)
      exact ⟨s2, rest', rfl, isNumber_of_token htoken hbeyond.1, hbeyond.2⟩
    · rintro ⟨_, _, heq, hnumber, hvalue⟩
      cases heq
      exact if_pos ⟨hnumber.all, hvalue⟩

end Strings

section Judge

variable {s : List UInt8} {out : Stdout}

/-- Once the result is known, the input is judged rightly just if it is 0 for a valid one and -1 for another. -/
theorem judges_iff_of_run {ret : Int} (h : ∃ out', (trans_str2int_judge s).run out = .ok (ret, out')) :
    Judges s out ↔ Valid s ∧ ret = 0 ∨ ¬Valid s ∧ ret = -1 := by
  obtain ⟨out', hrun⟩ := h
  constructor
  · rintro ⟨ret', out'', hrun', hright⟩
    cases hrun.symm.trans hrun'
    exact hright
  · exact fun hright => ⟨ret, out', hrun, hright⟩

theorem not_judges_of_fault {e : Fault} (h : (trans_str2int_judge s).run out = .error e) : ¬Judges s out := by
  rintro ⟨ret, out', hrun, -⟩
  exact nomatch h.symm.trans hrun

section

variable (hlength : s.length ≤ 4)
include hlength

theorem run_trans_of_dash (hdash : DASH ∈ s) (out : Stdout) :
    (trans_str2int_judge s).run out = (judgeRange s).run out := by
  rw [trans_str2int_judge, Exec.run_bind_of_ok (Exec.run_inBounds (by omega) out), if_pos (isSome_strchr.mpr hdash)]

theorem judges_iff_number (hdash : DASH ∉ s) : Judges s out ↔ s ≠ [] := by
  obtain ⟨out', hrun⟩ := run_judgeNumber hlength out
  have hret : (trans_str2int_judge s).run out = (judgeNumber s).run out := by
    rw [trans_str2int_judge, Exec.run_bind_of_ok (Exec.run_inBounds (by omega) out),
      if_neg fun h => hdash (isSome_strchr.mp h)]
  rw [judges_iff_of_run ⟨out', hret.trans hrun⟩, valid_iff_of_no_dash hdash]
  by_cases hs : s = []
  · subst hs
    simp [value]
    exact fun h => h.ne_nil rfl
  · have hvalid : IsNumber s ∧ value s ≤ 15 ↔ s.all isDigit = true ∧ value s ≤ 15 :=
      and_congr_left fun _ => ⟨IsNumber.all, fun h => ⟨hs, List.all_eq_true.mp h⟩⟩
    rw [hvalid]
    by_cases h : s.all isDigit = true ∧ value s ≤ 15
    · exact iff_of_true (.inl ⟨h, if_pos h⟩) hs
    · exact iff_of_true (.inr ⟨h, if_neg h⟩) hs

/-- A first token that is no service: the function returns 0, or the message has no argument. -/
theorem not_judges_first (hdash : DASH ∈ s)
    (htoken : strtok s [DASH] = some (s1, rest)) (hfirst : ¬(IsNumber s1 ∧ value s1 ≤ 15)) : ¬Judges s out := by
  obtain ⟨-, hlength1, -⟩ := token_of_strtok htoken
  obtain ⟨out', hall⟩ := run_allisdigit s1 out
  have hrange : (trans_str2int_judge s).run out = _ := run_trans_of_dash hlength hdash out
  simp only [judgeRange, htoken, Exec.run_bind_of_ok hall] at hrange
  by_cases hdigits : s1.all isDigit = true
  · have hnumber := isNumber_of_token htoken hdigits
    have hatoi := atoi_digits hdigits (by omega)
    rw [if_pos hdigits, if_neg fun h => hfirst ⟨hnumber, by omega⟩] at hrange
    exact not_judges_of_fault hrange
  · rw [if_neg hdigits] at hrange
    rw [judges_iff_of_run ⟨out', hrange⟩, valid_iff_of_dash hdash]
    rintro (⟨hvalid, -⟩ | ⟨-, hret⟩)
    · obtain ⟨a, b, ha, -, hnumber, -⟩ := hvalid.tokens
      cases htoken.symm.trans ha
      exact hdigits hnumber.all
    · exact absurd hret (by decide)

/-- Behind a service the second token decides. -/
theorem judges_iff_second (hdash : DASH ∈ s)
    (htoken : strtok s [DASH] = some (s1, rest)) (hnumber : IsNumber s1) (hvalue : value s1 ≤ 15) :
    Judges s out ↔ secondVerdict rest = -1 ∨ IsRange s := by
  obtain ⟨-, hlength1, hlength2⟩ := token_of_strtok htoken
  obtain ⟨out1, hall⟩ := run_allisdigit s1 out
  obtain ⟨out2, hsecond⟩ := run_judgeSecond s1 (hlength2.trans hlength) out1
  have hatoi := atoi_digits hnumber.all (by omega)
  have hrange : (trans_str2int_judge s).run out = _ := run_trans_of_dash hlength hdash out
  simp only [judgeRange, htoken, Exec.run_bind_of_ok hall] at hrange
  rw [if_pos hnumber.all, if_pos (by omega), hsecond] at hrange
  have hzero : IsRange s → secondVerdict rest = 0 := by
    intro h
    obtain ⟨a, b, ha, hb, -, -, hle⟩ := h.tokens
    cases htoken.symm.trans ha
    have hnot : secondVerdict rest ≠ -1 := by
      rw [Ne, secondVerdict_eq_neg_one_iff]
      rintro ⟨s2, rest', hs2, -, hbeyond⟩
      cases hb.symm.trans hs2
      exact absurd hle (Nat.not_le_of_lt hbeyond)
    exact (secondVerdict_eq_zero_or rest).resolve_right hnot
  rw [judges_iff_of_run ⟨out2, hrange⟩, valid_iff_of_dash hdash]
  by_cases hvalid : IsRange s
  · exact iff_of_true (.inl ⟨hvalid, hzero hvalid⟩) (.inr hvalid)
  · simp [hvalid]

/-- Nothing but dashes. -/
theorem judges_dashes (hdash : DASH ∈ s) (htoken : strtok s [DASH] = none) : Judges s out := by
  have hrange : (trans_str2int_judge s).run out = _ := run_trans_of_dash hlength hdash out
  simp only [judgeRange, htoken] at hrange
  rw [judges_iff_of_run ⟨_, hrange⟩, valid_iff_of_dash hdash]
  refine .inr ⟨fun h => ?_, rfl⟩
  obtain ⟨a, b, ha, -⟩ := h.tokens
  exact nomatch htoken.symm.trans ha

end

theorem beyondServices_iff (htoken : strtok s [DASH] = some (s1, rest)) :
    BeyondServices s ↔ (IsNumber s1 ∧ value s1 ≤ 15) ∧ secondVerdict rest = -1 := by
  rw [secondVerdict_eq_neg_one_iff]
  constructor
  · rintro ⟨_, _, s2, rest', h1, h2, hnumber, hvalue, hnumber2, hvalue2⟩
    cases htoken.symm.trans h1
    exact ⟨⟨hnumber, hvalue⟩, s2, rest', h2, hnumber2, hvalue2⟩
  · rintro ⟨⟨hnumber, hvalue⟩, s2, rest', h2, hnumber2, hvalue2⟩
    exact ⟨s1, rest, s2, rest', htoken, h2, hnumber, hvalue, hnumber2, hvalue2⟩

theorem judges_iff_of_token (hlength : s.length ≤ 4) (hdash : DASH ∈ s)
    (htoken : strtok s [DASH] = some (s1, rest)) : Judges s out ↔ BeyondServices s ∨ IsRange s := by
  rw [beyondServices_iff htoken]
  by_cases hfirst : IsNumber s1 ∧ value s1 ≤ 15
  · rw [judges_iff_second hlength hdash htoken hfirst.1 hfirst.2, and_iff_right hfirst]
  · refine iff_of_false (not_judges_first hlength hdash htoken hfirst) ?_
    rintro (h | h)
    · exact hfirst h.1
    · obtain ⟨a, b, ha, -, hnumber, hlt, hle⟩ := h.tokens
      cases htoken.symm.trans ha
      exact hfirst ⟨hnumber, by omega⟩

/-- The strings that are judged as they should be fit the array, and they have no dash, or nothing but dashes, or are
a service and a number beyond the services, or a range. -/
theorem judges_iff (s : List UInt8) (out : Stdout) : Judges s out ↔ s.length ≤ 4 ∧
    (DASH ∉ s ∧ s ≠ [] ∨ (s ≠ [] ∧ ∀ b ∈ s, b = DASH) ∨ BeyondServices s ∨ IsRange s) := by
  by_cases hlength : s.length ≤ 4
  · rw [and_iff_right hlength]
    by_cases hdash : DASH ∈ s
    · rw [or_iff_right fun h => h.1 hdash]
      cases htoken : strtok s [DASH] with
      | none =>
        have hall : ∀ b ∈ s, b = DASH := fun b hb => List.mem_singleton.mp (strtok_eq_none_iff.mp htoken b hb)
        exact iff_of_true (judges_dashes hlength hdash htoken) (.inl ⟨List.ne_nil_of_mem hdash, hall⟩)
      | some token =>
        have hnot : ¬(s ≠ [] ∧ ∀ b ∈ s, b = DASH) := fun h =>
          nomatch htoken.symm.trans (strtok_eq_none_iff.mpr fun b hb => List.mem_singleton.mpr (h.2 b hb))
        rw [or_iff_right hnot, judges_iff_of_token hlength hdash htoken]
    · rw [judges_iff_number hlength hdash]
      refine ⟨fun hs => .inl ⟨hdash, hs⟩, ?_⟩
      rintro (h | h | ⟨s1, rest, s2, rest', h1, -⟩ | h)
      · exact h.2
      · exact h.1
      · rintro rfl
        exact nomatch h1
      · exact absurd h.dash hdash
  · have hfault : (trans_str2int_judge s).run out = .error .bounds := by
      rw [trans_str2int_judge, Exec.run_bind, Exec.inBounds, if_neg (by omega), Exec.run_fail]
    exact iff_of_false (not_judges_of_fault hfault) fun h => hlength h.1

/-- A range that is too long for the array, the empty string, and ranges that are no ranges. -/
theorem trans_str2int_judge_misses :
    (trans_str2int_judge (ascii "10-15")).run [] = .error .bounds ∧
    (trans_str2int_judge []).run [] = .ok (0, []) ∧
    (trans_str2int_judge (ascii "5-")).run [] = .ok (0, ascii "please input two integer,such as 8-13\n") ∧
    (trans_str2int_judge (ascii "8-3")).run [] = .ok (0, ascii "3 is not bigger than 8\n") := by
  decide

end Judge

end basic_data_struct.libc
