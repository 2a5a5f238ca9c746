import BasicDataStruct.ConfFile.Correctness

open machine

namespace basic_data_struct.conf_file

variable {malloc : Nat → Option Nat} {file file' AppName KeyName KeyVal : List UInt8}

/-- Nothing is written outside of an array: the name of the section fits into `appname`, and
at the line where the search ends the word fits into `keyname` and the `memset` into its
block. -/
def Fits (malloc : Nat → Option Nat) (AppName KeyName KeyVal : List UInt8) (lines : List (List UInt8)) : Prop :=
  AppName.length + 2 < NAMELEN ∧ ∀ line after, fromHit KeyName lines = line :: after →
    (word (text line)).length < NAMELEN ∧ Room malloc KeyVal (value (text line))

/-- What a search in the lines of a section returns and leaves in `KeyVal`. -/
def outcome (malloc : Nat → Option Nat) (KeyName KeyVal : List UInt8) (lines : List (List UInt8)) :
    Int32 × List UInt8 :=
  match fromHit KeyName lines with
  | [] => (-1, KeyVal)
  | line :: _ => (0, delivered malloc KeyVal (value (text line)))

theorem run_of_fits (hmalloc : ∀ n size, malloc n = some size → n ≤ size)
    (hlines : ∀ line ∈ stdio.lines file, line.length + 1 ≤ conf.KEYVALLEN)
    (hfits : Fits malloc AppName KeyName KeyVal (sectionOf AppName (stdio.lines file))) :
    (GetProfileString conf.KEYVALLEN malloc (some file) AppName KeyName).run KeyVal =
      .ok (outcome malloc KeyName KeyVal (sectionOf AppName (stdio.lines file))) := by
  rw [run_GetProfileString hfits.1 (stdio.fgets_eq_lines (by decide) hlines), outcome]
  cases hfrom : fromHit KeyName (sectionOf AppName (stdio.lines file)) with
  | nil => rfl
  | cons line after =>
    obtain ⟨hword, hroom⟩ := hfits.2 line after hfrom
    exact run_deliver hmalloc hword hroom

theorem run_of_not_fits (hlines : ∀ line ∈ stdio.lines file, line.length + 1 ≤ conf.KEYVALLEN)
    (hfits : ¬Fits malloc AppName KeyName KeyVal (sectionOf AppName (stdio.lines file))) :
    (GetProfileString conf.KEYVALLEN malloc (some file) AppName KeyName).run KeyVal = .error .bounds := by
  by_cases happ : AppName.length + 2 < NAMELEN
  · rw [run_GetProfileString happ (stdio.fgets_eq_lines (by decide) hlines)]
    rw [Fits, and_iff_right happ] at hfits
    cases hfrom : fromHit KeyName (sectionOf AppName (stdio.lines file)) with
    | nil => exact absurd (fun line after hline => nomatch hfrom.symm.trans hline) hfits
    | cons line after =>
      refine run_overrun fun hends => hfits fun line' after' hline => ?_
      cases hfrom.symm.trans hline
      exact hends
  · have hname : ¬(91 :: (AppName ++ [93])).length < NAMELEN := by simpa using happ
    rw [GetProfileString, Exec.run_bind, Exec.inBounds, if_neg hname, Exec.run_fail]

/-- Only a key that is found changes `KeyVal`. -/
theorem outcome_not_found {lines : List (List UInt8)} (hcode : (outcome malloc KeyName KeyVal lines).1 = -1) :
    (outcome malloc KeyName KeyVal lines).2 = KeyVal := by
  rw [outcome] at hcode ⊢
  split at hcode
  · rfl
  · have hzero : (0 : Int32) = -1 := hcode
    exact absurd hzero (by decide)

/-- Two profiles with the same section give the same result for its keys, and a failure
leaves `KeyVal` alone, exactly where no array is overrun. -/
theorem section_isolated_iff (malloc : Nat → Option Nat) (file file' AppName KeyName KeyVal : List UInt8)
    (hmalloc : ∀ n size, malloc n = some size → n ≤ size)
    (hlines : ∀ line ∈ stdio.lines file, line.length + 1 ≤ conf.KEYVALLEN)
    (hlines' : ∀ line ∈ stdio.lines file', line.length + 1 ≤ conf.KEYVALLEN)
    (hsection : sectionOf AppName (stdio.lines file) = sectionOf AppName (stdio.lines file')) :
    (∃ code KeyVal',
        (GetProfileString conf.KEYVALLEN malloc (some file) AppName KeyName).run KeyVal = .ok (code, KeyVal') ∧
        (GetProfileString conf.KEYVALLEN malloc (some file') AppName KeyName).run KeyVal = .ok (code, KeyVal') ∧
        (code = -1 → KeyVal' = KeyVal)) ↔
      Fits malloc AppName KeyName KeyVal (sectionOf AppName (stdio.lines file)) := by
  constructor
  · rintro ⟨code, KeyVal', hrun, -⟩
    by_contra hfits
    rw [run_of_not_fits hlines hfits] at hrun
    cases hrun
  · intro hfits
    have hrun := run_of_fits hmalloc hlines hfits
    have hrun' := run_of_fits hmalloc hlines' (hsection ▸ hfits)
    rw [← hsection] at hrun'
    exact ⟨_, _, hrun, hrun', outcome_not_found⟩

/-- The profile `[s]`, `k=1`. -/
def plain : List UInt8 := [91, 115, 93, 10, 107, 61, 49, 10]

/-- The same section between `[t]`, `k=2` and `[u]`. -/
def surrounded : List UInt8 := [91, 116, 93, 10, 107, 61, 50, 10] ++ plain ++ [91, 117, 93, 10]

theorem section_isolated_surrounded : ∃ code KeyVal',
    (GetProfileString conf.KEYVALLEN roundUp (some plain) [115] [107]).run [120] = .ok (code, KeyVal') ∧
      (GetProfileString conf.KEYVALLEN roundUp (some surrounded) [115] [107]).run [120] = .ok (code, KeyVal') ∧
      (code = -1 → KeyVal' = [120]) := by
  have hsize : ∀ n size, roundUp n = some size → n ≤ size := by
    intro n size hblock
    simp only [roundUp, Option.some.injEq] at hblock
    omega
  refine (section_isolated_iff roundUp plain surrounded [115] [107] [120] hsize (by decide) (by decide) (by decide)).mpr
    ⟨by decide, fun line after hfrom => ?_⟩
  have hline : fromHit [107] (sectionOf [115] (stdio.lines plain)) = [[107, 61, 49, 10]] := by decide
  obtain ⟨rfl, rfl⟩ := List.cons.inj (hline.symm.trans hfrom)
  refine ⟨by decide, fun size hblock => ?_⟩
  simp only [roundUp, Option.some.injEq] at hblock
  change 8 ≤ size
  omega

/-- The profile `[s]` with a line `aa...a=1` of 32 letters. -/
def longWord : List UInt8 := [91, 115, 93, 10] ++ List.replicate 32 97 ++ [61, 49, 10]

/-- That line overruns `keyname`, whatever key is looked up; here it is `k`, and the same
profile is searched twice. -/
theorem section_long_word : (∀ line ∈ stdio.lines longWord, line.length + 1 ≤ conf.KEYVALLEN) ∧
    ¬∃ code KeyVal',
      (GetProfileString conf.KEYVALLEN roundUp (some longWord) [115] [107]).run [120] = .ok (code, KeyVal') ∧
        (GetProfileString conf.KEYVALLEN roundUp (some longWord) [115] [107]).run [120] = .ok (code, KeyVal') ∧
        (code = -1 → KeyVal' = [120]) := by
  have hrun : (GetProfileString conf.KEYVALLEN roundUp (some longWord) [115] [107]).run [120] = .error .bounds := rfl
  rw [hrun]
  refine ⟨by decide, ?_⟩
  rintro ⟨code, KeyVal', hok, -⟩
  cases hok

end basic_data_struct.conf_file
