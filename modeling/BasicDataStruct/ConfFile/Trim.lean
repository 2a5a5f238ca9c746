import BasicDataStruct.ConfFile.Profile
import BasicDataStruct.Stdio.Buffer

open machine machine.Exec stdio

namespace basic_data_struct.conf_file

/-- Remove the white space on the right. -/
def r_trim (szInput : List UInt8) : List UInt8 := szInput.rdropWhile isspace

namespace conf

/-- The loop of `l_trim`, which moves `szInput` to the first byte that is no white space. -/
def skip_space : List UInt8 → OnBuffer (List UInt8)
  | [] => fail .bounds
  | c :: szInput => if c ≠ 0 ∧ isspace c then skip_space szInput else return c :: szInput

/-- The memory is the array `szOutput`, to which the result also points. `szInput` is what the
memory holds from the pointer `szInput` on. -/
def l_trim (szInput : List UInt8) : OnBuffer Unit := do
  strcpy (← skip_space szInput)

/-- The loop that `r_trim` and `a_trim` have in common, with the `++p` behind it. The argument is the
index of `p` plus one: at 0, `p` stands before the array and is not read. -/
def scan_back : Nat → OnBuffer Nat
  | 0 => return 0
  | i + 1 => do
    if isspace (← readByte i) then scan_back i else return i + 1

def r_trim (szInput : List UInt8) : OnBuffer Unit := do
  strcpy szInput
  let p ← scan_back (← strlen)
  writeByte p 0

def a_trim (szInput : List UInt8) : OnBuffer Unit := do
  l_trim szInput
  let p ← scan_back (← strlen)
  writeByte p 0

end conf

/-- On every array that holds the string `s`, the function `f` leaves the string `t` in every
output array that has room for `s`. -/
def Yields (f : List UInt8 → OnBuffer Unit) (s t : List UInt8) : Prop :=
  ∀ szInput szOutput, HoldsString szInput s → s.length < szOutput.length →
    ∃ szOutput', (f szInput).run szOutput = .ok ((), szOutput') ∧ HoldsString szOutput' t ∧
      szOutput'.length = szOutput.length

section

variable {s t szInput szOutput : List UInt8}

theorem run_skip_space (h : HoldsString szInput s) (szOutput : List UInt8) :
    ∃ szInput', (conf.skip_space szInput).run szOutput = .ok (szInput', szOutput) ∧
      HoldsString szInput' (l_trim s) := by
  obtain ⟨hs, rest, rfl⟩ := h
  induction s with
  | nil => exact ⟨0 :: rest, rfl, List.not_mem_nil, rest, rfl⟩
  | cons c s ih =>
    have hc : c ≠ 0 := fun heq => hs (heq ▸ List.mem_cons_self)
    have hs' : 0 ∉ s := fun hmem => hs (List.mem_cons_of_mem c hmem)
    by_cases hspace : isspace c = true
    · obtain ⟨szInput', hrun, hholds⟩ := ih hs'
      refine ⟨szInput', ?_, ?_⟩
      · rw [List.cons_append, conf.skip_space, if_pos ⟨hc, hspace⟩, hrun]
      · rw [l_trim, List.dropWhile_cons_of_pos hspace]
        exact hholds
    · refine ⟨c :: s ++ 0 :: rest, ?_, ?_⟩
      · rw [List.cons_append, conf.skip_space, if_neg fun h => hspace h.2, run_pure]
      · rw [l_trim, List.dropWhile_cons_of_neg hspace]
        exact ⟨hs, rest, rfl⟩

/-- The scan ends behind the last byte that is no white space, also where there is none. -/
theorem run_scan_back (t rest : List UInt8) :
    (conf.scan_back t.length).run (t ++ rest) = .ok ((r_trim t).length, t ++ rest) := by
  induction t using List.reverseRecOn generalizing rest with
  | nil => rfl
  | append_singleton t c ih =>
    have hread : (t ++ [c] ++ rest)[t.length]? = some c := by simp
    rw [List.length_append, List.length_singleton, conf.scan_back, run_bind_of_ok (run_readByte hread), run_ite]
    by_cases hspace : isspace c = true
    · rw [if_pos hspace, List.append_assoc, ih, r_trim, r_trim, List.rdropWhile_concat_pos _ _ _ hspace]
    · rw [if_neg hspace, run_pure, r_trim, List.rdropWhile_concat_neg _ _ _ hspace, List.length_append,
        List.length_singleton]

/-- What `r_trim` and `a_trim` do to the string they have copied. -/
theorem run_cut_back (h : HoldsString szOutput t) :
    ∃ szOutput', (do let p ← conf.scan_back (← strlen); writeByte p 0 : OnBuffer Unit).run szOutput =
        .ok ((), szOutput') ∧ HoldsString szOutput' (r_trim t) ∧ szOutput'.length = szOutput.length := by
  have hscan : (conf.scan_back t.length).run szOutput = .ok ((r_trim t).length, szOutput) := by
    obtain ⟨-, rest, rfl⟩ := h
    exact run_scan_back t (0 :: rest)
  have hsplit : r_trim t ++ t.rtakeWhile isspace = t := List.rdropWhile_append_rtakeWhile ..
  have hshort : (r_trim t).length ≤ t.length := (List.rdropWhile_prefix ..).length_le
  have hroom : (r_trim t).length < szOutput.length := hshort.trans_lt h.length_lt
  refine ⟨szOutput.set (r_trim t).length 0, ?_, ?_, List.length_set⟩
  · rw [run_bind_of_ok (run_strlen h), run_bind_of_ok hscan, run_writeByte hroom]
  · rw [← hsplit] at h
    exact h.set

theorem length_strcpy (hroom : t.length < szOutput.length) :
    (t ++ 0 :: szOutput.drop (t.length + 1)).length = szOutput.length := by
  simp
  omega

theorem yields_l_trim (s : List UInt8) : Yields conf.l_trim s (l_trim s) := by
  intro szInput szOutput hholds hroom
  obtain ⟨szInput', hskip, htrimmed⟩ := run_skip_space hholds szOutput
  have hshort : (l_trim s).length ≤ s.length := (List.dropWhile_suffix _).length_le
  have hroom' := hshort.trans_lt hroom
  refine ⟨_, ?_, ⟨htrimmed.1, _, rfl⟩, length_strcpy hroom'⟩
  rw [conf.l_trim, run_bind_of_ok hskip, run_strcpy htrimmed hroom']

theorem yields_r_trim (s : List UInt8) : Yields conf.r_trim s (r_trim s) := by
  intro szInput szOutput hholds hroom
  have hcopied : HoldsString (s ++ 0 :: szOutput.drop (s.length + 1)) s := ⟨hholds.1, _, rfl⟩
  obtain ⟨szOutput', hrun, htrimmed, hlength⟩ := run_cut_back hcopied
  refine ⟨szOutput', ?_, htrimmed, hlength.trans (length_strcpy hroom)⟩
  rw [conf.r_trim, run_bind_of_ok (run_strcpy hholds hroom), hrun]

theorem yields_a_trim (s : List UInt8) : Yields conf.a_trim s (a_trim s) := by
  intro szInput szOutput hholds hroom
  obtain ⟨copied, hcopy, hleft, hlength⟩ := yields_l_trim s szInput szOutput hholds hroom
  obtain ⟨szOutput', hrun, htrimmed, hlength'⟩ := run_cut_back hleft
  refine ⟨szOutput', ?_, htrimmed, hlength'.trans hlength⟩
  rw [conf.a_trim, run_bind_of_ok hcopy, hrun]

end

/-- The two sides can be trimmed in either order. -/
theorem l_trim_r_trim (s : List UInt8) : l_trim (r_trim s) = a_trim s := by
  induction s using List.reverseRecOn with
  | nil => rfl
  | append_singleton s c ih =>
    simp only [l_trim, r_trim, a_trim] at ih ⊢
    by_cases hspace : isspace c = true
    · rw [List.rdropWhile_concat_pos _ _ _ hspace, ih, List.dropWhile_append]
      split
      · next hblank => simp [List.isEmpty_iff.mp hblank, hspace]
      · rw [List.rdropWhile_concat_pos _ _ _ hspace]
    · -- the byte stays, whether or not anything before it does
      obtain ⟨kept, hkept⟩ : ∃ kept, (s ++ [c]).dropWhile isspace = kept ++ [c] := by
        rw [List.dropWhile_append]
        split
        · exact ⟨[], List.dropWhile_cons_of_neg hspace⟩
        · exact ⟨_, rfl⟩
      rw [List.rdropWhile_concat_neg _ _ _ hspace, hkept, List.rdropWhile_concat_neg _ _ _ hspace]

theorem l_trim_a_trim (s : List UInt8) : l_trim (a_trim s) = a_trim s := by
  rw [← l_trim_r_trim]
  exact List.dropWhile_idempotent ..

theorem r_trim_a_trim (s : List UInt8) : r_trim (a_trim s) = a_trim s := List.rdropWhile_idempotent ..

theorem a_trim_a_trim (s : List UInt8) : a_trim (a_trim s) = a_trim s := by
  rw [← l_trim_r_trim (a_trim s), r_trim_a_trim, l_trim_a_trim]

theorem a_trim_head (s : List UInt8) : ∀ c ∈ (a_trim s).head?, isspace c = false := by
  intro c hc
  rw [← l_trim_r_trim, l_trim] at hc
  have hhead := List.head?_dropWhile_not isspace (r_trim s)
  rw [Option.mem_def.mp hc] at hhead
  exact hhead

theorem a_trim_last (s : List UInt8) : ∀ c ∈ (a_trim s).getLast?, isspace c = false := by
  intro c hc
  obtain ⟨hne, rfl⟩ := List.mem_getLast?_eq_getLast hc
  exact Bool.eq_false_of_not_eq_true (List.rdropWhile_last_not isspace (l_trim s) hne)

/-- What trimming removes is white space at the two ends. -/
theorem a_trim_removes (s : List UInt8) : ∃ front back, s = front ++ a_trim s ++ back ∧
    (∀ c ∈ front, isspace c) ∧ ∀ c ∈ back, isspace c := by
  refine ⟨s.takeWhile isspace, (l_trim s).rtakeWhile isspace, ?_, fun c hc => ?_, fun c hc => ?_⟩
  · rw [List.append_assoc, a_trim, List.rdropWhile_append_rtakeWhile, l_trim, List.takeWhile_append_dropWhile]
  · exact List.mem_takeWhile_imp hc
  · exact List.mem_rtakeWhile_imp hc

/-- For every string: `a_trim` is `l_trim` and `r_trim` in either order, it takes away just the white space at both
ends, and nothing is left to trim. -/
theorem trims_agree (s : List UInt8) :
    -- the three functions of the source, one after the other
    (Yields conf.a_trim s (a_trim s) ∧
      (Yields conf.l_trim s (l_trim s) ∧ Yields conf.r_trim (l_trim s) (a_trim s)) ∧
      Yields conf.r_trim s (r_trim s) ∧ Yields conf.l_trim (r_trim s) (a_trim s)) ∧
    -- no white space at the ends
    ((∀ c ∈ (a_trim s).head?, isspace c = false) ∧ ∀ c ∈ (a_trim s).getLast?, isspace c = false) ∧
    (∃ front back, s = front ++ a_trim s ++ back ∧ (∀ c ∈ front, isspace c) ∧ ∀ c ∈ back, isspace c) ∧
    -- trimming again
    (Yields conf.a_trim (a_trim s) (a_trim s) ∧ Yields conf.l_trim (a_trim s) (a_trim s) ∧
      Yields conf.r_trim (a_trim s) (a_trim s)) := by
  have hleft := yields_l_trim (r_trim s)
  rw [l_trim_r_trim] at hleft
  have hagain := yields_a_trim (a_trim s)
  rw [a_trim_a_trim] at hagain
  have hagainLeft := yields_l_trim (a_trim s)
  rw [l_trim_a_trim] at hagainLeft
  have hagainRight := yields_r_trim (a_trim s)
  rw [r_trim_a_trim] at hagainRight
  exact ⟨⟨yields_a_trim s, ⟨yields_l_trim s, yields_r_trim (l_trim s)⟩, yields_r_trim s, hleft⟩,
    ⟨a_trim_head s, a_trim_last s⟩, a_trim_removes s, hagain, hagainLeft, hagainRight⟩

-- a blank string: the scan runs to the place before the array
example : (conf.a_trim [32, 9, 0]).run [1, 2, 3, 4] = .ok ((), [0, 2, 3, 4]) := by decide

example : (conf.a_trim [32, 97, 32, 98, 10, 0]).run [1, 2, 3, 4, 5, 6] = .ok ((), [97, 32, 98, 0, 0, 6]) := by decide

end basic_data_struct.conf_file
