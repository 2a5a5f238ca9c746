import BasicDataStruct.ConfFile.Lookup

open machine

namespace basic_data_struct.conf_file

variable {found : Option (List UInt8)}

section Value

variable {malloc : Nat → Option Nat} {KeyVal value : List UInt8}

theorem Kept.iff_delivered : Kept malloc KeyVal value ↔ a_trim value = delivered malloc KeyVal value := by
  rw [Kept, delivered, stored]
  by_cases hvalue : value = []
  · have htrim : a_trim [] = [] := rfl
    rw [if_pos hvalue, if_pos hvalue, hvalue, htrim]
    split
    next => exact eq_comm
    next hcopied =>
      rw [not_or] at hcopied
      refine ⟨fun hempty => absurd (by rw [hempty, htrim]) hcopied.2, fun hempty => absurd hempty.symm hcopied.2⟩
  · rw [if_neg hvalue, if_neg hvalue]
    by_cases hblank : a_trim value = []
    · simp [hblank, Ne.symm hvalue]
    · by_cases hnull : malloc (value.length + 1) = none <;> simp [hblank, hnull]

/-- The `sscanf` of the value. -/
theorem run_scan_value (c : List UInt8) : (scan_value c).run KeyVal = .ok ((), stored KeyVal (untilNewline c)) := by
  rw [scan_value, stored]
  split <;> rfl

/-- Trimming with room for the `memset`. -/
theorem run_trim_value (hmalloc : ∀ n size, malloc n = some size → n ≤ size) (hroom : Room malloc KeyVal value) :
    (trim_value malloc).run (stored KeyVal value) = .ok ((), delivered malloc KeyVal value) := by
  rw [trim_value, Exec.run_bind_of_ok (Exec.run_get _), delivered]
  cases hblock : malloc ((stored KeyVal value).length + 1) with
  | none => simp
  | some size =>
    have hsize := hroom size hblock
    have hcopy : (l_trim (stored KeyVal value)).length < size :=
      Nat.lt_of_le_of_lt (List.length_dropWhile_le _ _) (hmalloc _ size hblock)
    dsimp only
    rw [Exec.run_bind_of_ok (Exec.run_inBounds (by omega) _), Exec.run_bind_of_ok (Exec.run_inBounds hcopy _),
      Exec.run_ite]
    by_cases hblank : a_trim (stored KeyVal value) = [] <;> simp [hblank, List.length_pos_iff]

/-- Without room the `memset` leaves its block. -/
theorem run_trim_value_of_not_room (hroom : ¬Room malloc KeyVal value) :
    (trim_value malloc).run (stored KeyVal value) = .error .bounds := by
  obtain ⟨size, hblock, hsize⟩ : ∃ size, malloc ((stored KeyVal value).length + 1) = some size ∧
      ¬sizeof_KeyVal_o ≤ size := by
    simpa only [Room, not_forall, exists_prop] using hroom
  have hout : ¬sizeof_KeyVal_o - 1 < size := by omega
  rw [trim_value, Exec.run_bind_of_ok (Exec.run_get _), hblock]
  dsimp only
  rw [Exec.run_bind, Exec.inBounds, if_neg hout, Exec.run_fail]

end Value

section Run

variable {malloc : Nat → Option Nat} {appname AppName KeyName KeyVal line : List UInt8}

/-- A line of the section at which the search does not end. -/
theorem run_key_line_of_not_hit (hhit : ¬Hit KeyName line) (hopens : ¬opens line) :
    (key_line malloc KeyName (text line)).run KeyVal = .ok (.inl .AppName, KeyVal) := by
  rw [key_line]
  by_cases hhash : (text line).head? = some 35
  · rw [if_pos hhash, Exec.run_pure]
  rw [if_neg hhash, if_neg (by simpa [opens] using hopens)]
  cases hafter : afterEq (text line) with
  | none => rfl
  | some c =>
    have heq : 61 ∈ text line := by
      by_contra hmem
      rw [afterEq_eq_none.mpr hmem] at hafter
      cases hafter
    have hword : word (text line) ≠ KeyName ∧ (word (text line)).length < NAMELEN := by
      simpa [Hit, hhash, heq] using hhit
    dsimp only
    rw [Exec.run_bind_of_ok (Exec.run_inBounds hword.2 _), Exec.run_ite, if_neg hword.1, Exec.run_pure]

/-- The line at which the search ends. -/
theorem run_key_line_of_hit (hhit : Hit KeyName line) (hopens : ¬opens line) :
    (key_line malloc KeyName (text line)).run KeyVal =
      (do Exec.inBounds (word (text line)).length NAMELEN
          if word (text line) = KeyName then
            scan_value ((afterEq (text line)).getD [])
            trim_value malloc
            return .inr .KeyName
          else return .inl .AppName : Prog (Found ⊕ Found)).run KeyVal := by
  obtain ⟨hhash, heq, -⟩ := hhit
  rw [key_line, if_neg hhash, if_neg (by simpa [opens] using hopens)]
  cases hafter : afterEq (text line) with
  | none => exact absurd heq (afterEq_eq_none.mp hafter)
  | some c => rfl

/-- A line with a word that is too long for `keyname`. -/
theorem run_key_line_of_long (hhit : Hit KeyName line) (hopens : ¬opens line)
    (hlong : NAMELEN ≤ (word (text line)).length) :
    (key_line malloc KeyName (text line)).run KeyVal = .error .bounds := by
  rw [run_key_line_of_hit hhit hopens, Exec.run_bind, Exec.inBounds, if_neg (Nat.not_lt.mpr hlong), Exec.run_fail]

/-- The first line whose word is the key. -/
theorem run_key_line_of_key (hhit : Hit KeyName line) (hopens : ¬opens line) (hword : word (text line) = KeyName)
    (hlen : KeyName.length < NAMELEN) :
    (key_line malloc KeyName (text line)).run KeyVal =
      (do trim_value malloc
          return .inr .KeyName : Prog (Found ⊕ Found)).run (stored KeyVal (value (text line))) := by
  rw [run_key_line_of_hit hhit hopens, hword, Exec.run_bind_of_ok (Exec.run_inBounds hlen _), if_pos rfl,
    Exec.run_bind_of_ok (run_scan_value _)]
  rfl

/-- A line that does not end the search is passed over. -/
theorem run_line_body_of_not_hit (hhit : ¬Hit KeyName line) (hopens : ¬opens line) :
    (line_body malloc appname KeyName .AppName line).run KeyVal = .ok (.inl .AppName, KeyVal) := by
  rw [line_body, Exec.run_ite]
  split
  · rfl
  · exact run_key_line_of_not_hit hhit hopens

/-- A bracket ends the section. -/
theorem run_line_body_of_opens (hopens : opens line) :
    (line_body malloc appname KeyName .AppName line).run KeyVal = .ok (.inr .AppName, KeyVal) := by
  have hhead : (l_trim (stdio.cstr line)).head? = some 91 := of_decide_eq_true hopens
  have hne : l_trim (stdio.cstr line) ≠ [] := fun hnil => by simp [hnil] at hhead
  rw [line_body, if_neg hne, key_line, if_neg (by simp [hhead]), if_pos hhead, Exec.run_pure]

end Run

section Loop

variable {malloc : Nat → Option Nat} {appname AppName KeyName KeyVal line : List UInt8}
  {lines after : List (List UInt8)}

/-- The lines of a section up to the one at which the search ends. -/
def fromHit (KeyName : List UInt8) (lines : List (List UInt8)) : List (List UInt8) :=
  lines.dropWhile fun line => ¬Hit KeyName line

/-- Without such a line the loop runs to the end of the section. -/
theorem run_line_loop_of_none (hnone : fromHit KeyName (lines.takeWhile fun line => !opens line) = []) :
    (line_loop malloc appname KeyName lines .AppName).run KeyVal = .ok (.AppName, KeyVal) := by
  induction lines with
  | nil => rfl
  | cons line lines ih =>
    rw [line_loop]
    by_cases hopens : opens line
    · rw [Exec.run_bind_of_ok (run_line_body_of_opens hopens), Exec.run_pure]
    · rw [List.takeWhile_cons_of_pos (by simpa using hopens), fromHit, List.dropWhile_cons] at hnone
      split at hnone
      next hhit =>
        rw [Exec.run_bind_of_ok (run_line_body_of_not_hit (by simpa using hhit) hopens)]
        exact ih hnone
      next => cases hnone

/-- Otherwise that line decides. -/
theorem run_line_loop_of_hit (hsome : fromHit KeyName (lines.takeWhile fun line => !opens line) = line :: after) :
    Hit KeyName line ∧ ¬opens line ∧ ∃ rest, (line_loop malloc appname KeyName lines .AppName).run KeyVal =
      (do match ← key_line malloc KeyName (text line) with
          | .inl found => line_loop malloc appname KeyName rest found
          | .inr found => return found : Prog Found).run KeyVal := by
  induction lines with
  | nil => cases hsome
  | cons line' lines ih =>
    rw [line_loop]
    by_cases hopens : opens line'
    · rw [List.takeWhile_cons_of_neg (by simpa using hopens)] at hsome
      cases hsome
    · rw [List.takeWhile_cons_of_pos (by simpa using hopens), fromHit, List.dropWhile_cons] at hsome
      split at hsome
      next hhit =>
        rw [Exec.run_bind_of_ok (run_line_body_of_not_hit (by simpa using hhit) hopens)]
        exact ih hsome
      next hhit =>
        rw [List.cons.injEq] at hsome
        rw [hsome.1] at hhit hopens ⊢
        have hline : Hit KeyName line := by simpa using hhit
        have hne : l_trim (stdio.cstr line) ≠ [] := List.ne_nil_of_mem hline.2.1
        refine ⟨hline, hopens, lines, ?_⟩
        rw [line_body, if_neg hne]
        rfl

theorem run_line_body_of_isHeader (hheader : isHeader AppName line) :
    (line_body malloc (91 :: (AppName ++ [93])) KeyName .nothing line).run KeyVal = .ok (.inl .AppName, KeyVal) := by
  obtain ⟨rest, htext⟩ : 91 :: (AppName ++ [93]) <+: l_trim (stdio.cstr line) := List.isPrefixOf_iff_prefix.mp hheader
  rw [line_body, ← htext]
  simp

theorem run_line_body_of_not_isHeader (hheader : ¬isHeader AppName line) :
    (line_body malloc (91 :: (AppName ++ [93])) KeyName .nothing line).run KeyVal = .ok (.inl .nothing, KeyVal) := by
  have hprefix : ¬(91 :: (AppName ++ [93])).isPrefixOf (l_trim (stdio.cstr line)) := hheader
  rw [line_body, if_neg hprefix]
  by_cases hblank : l_trim (stdio.cstr line) = []
  · rw [if_pos hblank, Exec.run_pure]
  · rw [if_neg hblank, ite_self, Exec.run_pure]

/-- Before the header of the section nothing happens. -/
theorem run_line_loop_of_nothing : (line_loop malloc (91 :: (AppName ++ [93])) KeyName lines .nothing).run KeyVal =
    match lines.dropWhile fun line => !isHeader AppName line with
    | [] => .ok (.nothing, KeyVal)
    | _ :: lines => (line_loop malloc (91 :: (AppName ++ [93])) KeyName lines .AppName).run KeyVal := by
  induction lines with
  | nil => rfl
  | cons line lines ih =>
    rw [line_loop]
    by_cases hheader : isHeader AppName line
    · rw [Exec.run_bind_of_ok (run_line_body_of_isHeader hheader), List.dropWhile_cons_of_neg (by simpa using hheader)]
    · rw [Exec.run_bind_of_ok (run_line_body_of_not_isHeader hheader), List.dropWhile_cons_of_pos
        (by simpa using hheader)]
      exact ih

end Loop

/-- The search ends at a line that delivers what the profile says about the key: its
first word fits into `keyname` and there is room for trimming, and then either
blanks stand before the `=` and the value is kept, or the line is no assignment and
a later one happens to have the same value. -/
def Delivers (malloc : Nat → Option Nat) (KeyName KeyVal line : List UInt8) (after : List (List UInt8)) : Prop :=
  (word (text line)).length < NAMELEN ∧ Room malloc KeyVal (value (text line)) ∧
    (Proper (text line) ∧ Kept malloc KeyVal (value (text line)) ∨
      ¬Proper (text line) ∧ after.findSome? (assigned KeyName) = some (delivered malloc KeyVal (value (text line))))

section

variable {malloc : Nat → Option Nat} {file AppName KeyName KeyVal line : List UInt8} {lines after : List (List UInt8)}

/-- Lines before the end of the search assign nothing to the key. -/
theorem findSome_fromHit (hname : ∀ b ∈ KeyName, ¬endsName b) :
    (fromHit KeyName lines).findSome? (assigned KeyName) = lines.findSome? (assigned KeyName) := by
  induction lines with
  | nil => rfl
  | cons line lines ih =>
    rw [fromHit, List.dropWhile_cons]
    split
    next hhit =>
      have hnone : assigned KeyName line = none := by
        rw [Option.eq_none_iff_forall_ne_some]
        intro v hv
        obtain ⟨hhash, hword, -, c, hafter, -⟩ := (assigned_eq_some hname).mp hv
        have heq : 61 ∈ text line := by
          by_contra hmem
          rw [afterEq_eq_none.mpr hmem] at hafter
          cases hafter
        simp [Hit, hhash, hword, heq] at hhit
      rw [List.findSome?_cons, hnone]
      exact ih
    next => rfl

/-- The search through a whole profile. It ends at a line of the section or fails. -/
theorem run_GetProfileString {KEYVALLEN : Nat} (happ : AppName.length + 2 < NAMELEN)
    (hread : stdio.fgets KEYVALLEN file = stdio.lines file) :
    (GetProfileString KEYVALLEN malloc (some file) AppName KeyName).run KeyVal =
      match fromHit KeyName (sectionOf AppName (stdio.lines file)) with
      | [] => .ok (-1, KeyVal)
      | line :: _ => (do
          Exec.inBounds (word (text line)).length NAMELEN
          scan_value ((afterEq (text line)).getD [])
          trim_value malloc
          return 0 : Prog Int32).run KeyVal := by
  have hname : (91 :: (AppName ++ [93])).length < NAMELEN := by simpa using happ
  rw [GetProfileString, Exec.run_bind_of_ok (Exec.run_inBounds hname _), hread, Exec.run_bind,
    run_line_loop_of_nothing, sectionOf]
  cases hheader : (stdio.lines file).dropWhile fun line => !isHeader AppName line with
  | nil => rfl
  | cons header lines =>
    rw [List.tail_cons]
    cases hfrom : fromHit KeyName (lines.takeWhile fun line => !opens line) with
    | nil =>
      dsimp only
      rw [run_line_loop_of_none hfrom]
      rfl
    | cons line after =>
      obtain ⟨hhit, hopens, rest, hrun⟩ := run_line_loop_of_hit hfrom
      dsimp only
      rw [hrun, Exec.run_bind, Exec.run_bind]
      by_cases hlong : NAMELEN ≤ (word (text line)).length
      · rw [run_key_line_of_long hhit hopens hlong, Exec.inBounds, if_neg (Nat.not_lt.mpr hlong), Exec.run_fail]
      · have hword : word (text line) = KeyName := hhit.2.2.resolve_right hlong
        have hlen : KeyName.length < NAMELEN := by rw [← hword]; omega
        rw [run_key_line_of_key hhit hopens hword hlen, hword, Exec.run_inBounds hlen]
        dsimp only
        rw [Exec.run_bind_of_ok (run_scan_value _), Exec.run_bind, Exec.run_bind, value]
        cases (trim_value malloc).run (stored KeyVal (untilNewline ((afterEq (text line)).getD []))) <;> rfl

/-- A line whose first word is the key answers the lookup exactly when it delivers. -/
theorem findSome_eq_delivered_iff (hname : ∀ b ∈ KeyName, ¬endsName b) (hline : line ∈ stdio.lines file)
    (hhit : Hit KeyName line) (hword : word (text line) = KeyName) :
    (line :: after).findSome? (assigned KeyName) = some (delivered malloc KeyVal (value (text line))) ↔
      (Proper (text line) ∧ Kept malloc KeyVal (value (text line)) ∨
        ¬Proper (text line) ∧ after.findSome? (assigned KeyName) =
          some (delivered malloc KeyVal (value (text line)))) := by
  obtain ⟨c, hafter⟩ : ∃ c, afterEq (text line) = some c := by
    rw [← Option.ne_none_iff_exists']
    exact fun hnone => afterEq_eq_none.mp hnone hhit.2.1
  have hvalue : a_trim (value (text line)) = a_trim c := by
    rw [value, hafter, Option.getD_some]
    exact a_trim_untilNewline fun before after hc => eq_nil_of_afterEq hline hafter hc
  by_cases hproper : Proper (text line)
  · have hassigned := (assigned_eq_some hname).mpr ⟨hhit.1, hword, hproper, c, hafter, rfl⟩
    simp [hassigned, hproper, Kept.iff_delivered, hvalue]
  · have hassigned : assigned KeyName line = none := by
      rw [Option.eq_none_iff_forall_ne_some]
      intro v hv
      exact hproper ((assigned_eq_some hname).mp hv).2.2.1
    simp [hassigned, hproper]

theorem mem_of_fromHit (hfrom : fromHit KeyName (sectionOf AppName lines) = line :: after) :
    line ∈ lines ∧ Hit KeyName line := by
  have hmem : line ∈ sectionOf AppName lines :=
    (List.dropWhile_suffix _).subset (by rw [← fromHit, hfrom]; exact List.mem_cons_self)
  have hhit := List.head?_dropWhile_not (fun line => ¬Hit KeyName line) (sectionOf AppName lines)
  rw [← fromHit, hfrom] at hhit
  refine ⟨?_, by simpa using hhit⟩
  exact (List.dropWhile_suffix _).subset (List.mem_of_mem_tail ((List.takeWhile_prefix _).subset hmem))

theorem not_answers_error (e : Fault) : ¬Answers found (.error e) := by
  cases found <;> simp [Answers]

/-- Only a value is answered by 0. -/
theorem answers_zero : Answers found (.ok (0, KeyVal)) ↔ found = some KeyVal := by
  cases found with
  | none => simp [Answers]
  | some v => simp [Answers, eq_comm]

/-- The end of the search at a line whose word is the key, with room for trimming. -/
theorem run_deliver (hmalloc : ∀ n size, malloc n = some size → n ≤ size)
    (hword : (word (text line)).length < NAMELEN) (hroom : Room malloc KeyVal (value (text line))) :
    (do Exec.inBounds (word (text line)).length NAMELEN
        scan_value ((afterEq (text line)).getD [])
        trim_value malloc
        return 0 : Prog Int32).run KeyVal = .ok (0, delivered malloc KeyVal (value (text line))) := by
  rw [Exec.run_bind_of_ok (Exec.run_inBounds hword _), Exec.run_bind_of_ok (run_scan_value _), ← value,
    Exec.run_bind_of_ok (run_trim_value hmalloc hroom), Exec.run_pure]

/-- The end of the search at a line that is too long or without that room. -/
theorem run_overrun (hbad : ¬((word (text line)).length < NAMELEN ∧ Room malloc KeyVal (value (text line)))) :
    (do Exec.inBounds (word (text line)).length NAMELEN
        scan_value ((afterEq (text line)).getD [])
        trim_value malloc
        return 0 : Prog Int32).run KeyVal = .error .bounds := by
  by_cases hword : (word (text line)).length < NAMELEN
  · rw [Exec.run_bind_of_ok (Exec.run_inBounds hword _), Exec.run_bind_of_ok (run_scan_value _), Exec.run_bind,
      ← value, run_trim_value_of_not_room fun hroom => hbad ⟨hword, hroom⟩]
  · rw [Exec.run_bind, Exec.inBounds, if_neg hword, Exec.run_fail]

end

/-- For a profile whose lines fit into the buffer, a search answers the lookup exactly
when it ends at no line or at one that delivers. -/
theorem profile_answers_iff (malloc : Nat → Option Nat) (file AppName KeyName KeyVal : List UInt8)
    (hmalloc : ∀ n size, malloc n = some size → n ≤ size)
    (hlines : ∀ line ∈ stdio.lines file, line.length + 1 ≤ conf.KEYVALLEN)
    (happ : AppName.length + 2 < NAMELEN) (hname : ∀ b ∈ KeyName, ¬endsName b) :
    Answers (lookup AppName KeyName file)
        ((GetProfileString conf.KEYVALLEN malloc (some file) AppName KeyName).run KeyVal) ↔
      ∀ line after, fromHit KeyName (sectionOf AppName (stdio.lines file)) = line :: after →
        Delivers malloc KeyName KeyVal line after := by
  have hread : stdio.fgets conf.KEYVALLEN file = stdio.lines file := stdio.fgets_eq_lines (by decide) hlines
  rw [run_GetProfileString happ hread, lookup, ← findSome_fromHit hname]
  cases hfrom : fromHit KeyName (sectionOf AppName (stdio.lines file)) with
  | nil => simp [Answers]
  | cons line after =>
    obtain ⟨hline, hhit⟩ := mem_of_fromHit hfrom
    have hcond : (∀ line' after', line :: after = line' :: after' → Delivers malloc KeyName KeyVal line' after') ↔
        Delivers malloc KeyName KeyVal line after :=
      ⟨fun h => h line after rfl, fun h line' after' heq => by cases heq; exact h⟩
    rw [hcond, Delivers, ← and_assoc]
    dsimp only
    by_cases hends : (word (text line)).length < NAMELEN ∧ Room malloc KeyVal (value (text line))
    · have hword : word (text line) = KeyName := hhit.2.2.resolve_right (Nat.not_le.mpr hends.1)
      rw [run_deliver hmalloc hends.1 hends.2, answers_zero, findSome_eq_delivered_iff hname hline hhit hword]
      exact (and_iff_right hends).symm
    · rw [run_overrun hends]
      exact iff_of_false (not_answers_error _) fun hdelivers => hends hdelivers.1

/-- The profile `[s]`, `k = 1` answers for the key `k`. -/
theorem profile_answers_assignment : Answers (lookup [115] [107] [91, 115, 93, 10, 107, 32, 61, 32, 49, 10])
    ((GetProfileString conf.KEYVALLEN roundUp (some [91, 115, 93, 10, 107, 32, 61, 32, 49, 10]) [115] [107]).run
      [120]) := by
  have hsize : ∀ n size, roundUp n = some size → n ≤ size := by
    intro n size hblock
    simp only [roundUp, Option.some.injEq] at hblock
    omega
  have hname : ∀ b ∈ [107], ¬endsName b := List.forall_mem_singleton.mpr (by decide)
  refine (profile_answers_iff roundUp _ _ _ _ hsize (by decide) (by decide) hname).mpr fun line after hfrom => ?_
  have hline : fromHit [107] (sectionOf [115] (stdio.lines [91, 115, 93, 10, 107, 32, 61, 32, 49, 10])) =
    [[107, 32, 61, 32, 49, 10]] := by decide
  obtain ⟨rfl, rfl⟩ := List.cons.inj (hline.symm.trans hfrom)
  have hgap : gap [107, 32, 61, 32, 49, 10] = [32] := by decide
  have hproper : Proper [107, 32, 61, 32, 49, 10] := by
    rw [Proper, hgap]
    exact List.forall_mem_singleton.mpr (by decide)
  refine ⟨by decide, fun size hblock => ?_, .inl ⟨hproper, by unfold Kept; decide⟩⟩
  simp only [roundUp, Option.some.injEq] at hblock
  change 8 ≤ size
  omega

/-- The profile `[s]`, `k=` gives an empty value to `k`, and the search leaves what
`KeyVal` held before. -/
theorem not_answers_empty_value : ¬Answers (lookup [115] [107] [91, 115, 93, 10, 107, 61, 10])
    ((GetProfileString conf.KEYVALLEN roundUp (some [91, 115, 93, 10, 107, 61, 10]) [115] [107]).run [120]) := by
  have hlookup : lookup [115] [107] [91, 115, 93, 10, 107, 61, 10] = some [] := by decide
  have hrun : (GetProfileString conf.KEYVALLEN roundUp (some [91, 115, 93, 10, 107, 61, 10]) [115] [107]).run [120] =
    .ok (0, [120]) := rfl
  rw [hlookup, hrun, answers_zero]
  decide

end basic_data_struct.conf_file
