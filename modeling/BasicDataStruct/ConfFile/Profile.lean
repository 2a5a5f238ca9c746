import BasicDataStruct.Machine.Exec
import BasicDataStruct.Stdio.Fgets

open machine

namespace basic_data_struct.conf_file

/-- The size of the read buffer in the first version of the program. -/
abbrev conf.KEYVALLEN : Nat := 100

/-- The size of the read buffer in the second version. -/
abbrev conf2.KEYVALLEN : Nat := 700

/-- The size of the local arrays `appname` and `keyname`. -/
abbrev NAMELEN : Nat := 32

/-- The size of the pointer `KeyVal_o`. -/
abbrev sizeof_KeyVal_o : Nat := 8

/-- The white space of the C locale. -/
def isspace (c : UInt8) : Bool := c = 32 ∨ 9 ≤ c ∧ c ≤ 13

/-- Remove the white space on the left. -/
def l_trim (szInput : List UInt8) : List UInt8 := szInput.dropWhile isspace

/-- Remove the white space on both sides. -/
def a_trim (szInput : List UInt8) : List UInt8 := (l_trim szInput).rdropWhile isspace

/-- What `%[^=|^ |^\t]` reads up to: `=`, `|`, `^`, a space or a tab. -/
def endsName (c : UInt8) : Bool := c = 61 ∨ c = 124 ∨ c = 94 ∨ c = 32 ∨ c = 9

/-- The word at the start of a line, as the first `sscanf` reads it. -/
def word (buf : List UInt8) : List UInt8 := buf.takeWhile fun b => !endsName b

/-- The string after the first `=`, if there is one. -/
def afterEq (buf : List UInt8) : Option (List UInt8) :=
  match buf.dropWhile (· ≠ 61) with
  | [] => none
  | _ :: c => some c

/-- The text of a line that `%[^\n]` reads. -/
def untilNewline (c : List UInt8) : List UInt8 := c.takeWhile (· ≠ 10)

/-- The local `found`. -/
inductive Found where
  | nothing
  | AppName
  | KeyName
deriving DecidableEq, Repr

/-- The memory is the string in the caller's `KeyVal`. -/
abbrev Prog := Exec (List UInt8)

/-- `sscanf` with `%[^\n]`: where nothing matches, the target is left alone. -/
def scan_value (c : List UInt8) : Prog Unit :=
  if untilNewline c = [] then pure () else Exec.modify fun _ => untilNewline c

/-- Trim `KeyVal` through a temporary buffer. `malloc n` is the size of the block it
hands out for a request of `n` bytes. The `memset` clears as many bytes as the
pointer `KeyVal_o` has, and a string that is empty after trimming is not copied
back. -/
def trim_value (malloc : Nat → Option Nat) : Prog Unit := do
  let KeyVal ← Exec.get
  match malloc (KeyVal.length + 1) with
  | none => pure ()
  | some size => do
    Exec.inBounds (sizeof_KeyVal_o - 1) size
    Exec.inBounds (l_trim KeyVal).length size
    if 0 < (a_trim KeyVal).length then Exec.modify fun KeyVal => a_trim KeyVal else pure ()

/-- A line that is read while `found == 1`. -/
def key_line (malloc : Nat → Option Nat) (KeyName buf : List UInt8) : Prog (Found ⊕ Found) :=
  if buf.head? = some 35 then return .inl .AppName
  else if buf.head? = some 91 then return .inr .AppName
  else
    match afterEq buf with
    | none => return .inl .AppName
    | some c => do
      -- the word and its terminator go to keyname
      Exec.inBounds (word buf).length NAMELEN
      if word buf = KeyName then
        scan_value c
        trim_value malloc
        return .inr .KeyName
      else return .inl .AppName

/-- The body of the `while` loop: go on with a new `found`, or `break`. -/
def line_body (malloc : Nat → Option Nat) (appname KeyName : List UInt8) (found : Found) (buf_i : List UInt8) :
    Prog (Found ⊕ Found) :=
  let buf := l_trim (stdio.cstr buf_i)
  if buf = [] then return .inl found
  else
    match found with
    | .nothing =>
      if buf.head? ≠ some 91 then return .inl .nothing
      else if appname.isPrefixOf buf then return .inl .AppName
      else return .inl .nothing
    | .AppName => key_line malloc KeyName buf
    | .KeyName => return .inl .KeyName

/-- The `while` loop over what `fgets` reads. -/
def line_loop (malloc : Nat → Option Nat) (appname KeyName : List UInt8) : List (List UInt8) → Found → Prog Found
  | [], found => return found
  | buf_i :: rest, found => do
    match ← line_body malloc appname KeyName found buf_i with
    | .inl found => line_loop malloc appname KeyName rest found
    | .inr found => return found

/-- Look a key up in a section of a profile. The two versions of the program differ in
`KEYVALLEN`; `file` is the content of the file where it can be opened. -/
def GetProfileString (KEYVALLEN : Nat) (malloc : Nat → Option Nat) (file : Option (List UInt8))
    (AppName KeyName : List UInt8) : Prog Int32 :=
  match file with
  | none => return -1
  | some file => do
    let appname := 91 :: (AppName ++ [93])
    Exec.inBounds appname.length NAMELEN
    let found ← line_loop malloc appname KeyName (stdio.fgets KEYVALLEN file) .nothing
    if found = .KeyName then return 0 else return -1

/-- Where every line fits into the smaller buffer, the two versions agree. -/
theorem versions_agree (malloc : Nat → Option Nat) (file : Option (List UInt8)) (AppName KeyName KeyVal : List UInt8)
    (hlines : ∀ content ∈ file, ∀ line ∈ stdio.lines content, line.length < conf.KEYVALLEN) :
    (GetProfileString conf.KEYVALLEN malloc file AppName KeyName).run KeyVal =
      (GetProfileString conf2.KEYVALLEN malloc file AppName KeyName).run KeyVal := by
  cases file with
  | none => rfl
  | some content =>
    have hfit := hlines content rfl
    have hsmall : stdio.fgets conf.KEYVALLEN content = stdio.lines content := stdio.fgets_eq_lines (by decide) hfit
    have hlarge : stdio.fgets conf2.KEYVALLEN content = stdio.lines content :=
      stdio.fgets_eq_lines (by decide) fun line hline => Nat.le_trans (hfit line hline) (by decide)
    rw [GetProfileString, GetProfileString, hsmall, hlarge]

/-- A `malloc` that rounds its blocks up. -/
def roundUp (n : Nat) : Option Nat := some (n + 24)

theorem versions_agree_assignment :
    (∀ line ∈ stdio.lines [91, 115, 93, 10, 107, 61, 49, 10], line.length < conf.KEYVALLEN) ∧
    (GetProfileString conf.KEYVALLEN roundUp (some [91, 115, 93, 10, 107, 61, 49, 10]) [115] [107]).run [] =
      (GetProfileString conf2.KEYVALLEN roundUp (some [91, 115, 93, 10, 107, 61, 49, 10]) [115] [107]).run [] :=
  ⟨by decide, versions_agree roundUp _ _ _ _ (by rintro content ⟨⟩; decide)⟩

/-- A value of 99 characters: the first version delivers only 97 of them. -/
theorem versions_differ_long_line :
    (GetProfileString conf.KEYVALLEN roundUp (some ([91, 115, 93, 10, 107, 61] ++ List.replicate 99 97 ++ [10]))
        [115] [107]).run [] ≠
      (GetProfileString conf2.KEYVALLEN roundUp (some ([91, 115, 93, 10, 107, 61] ++ List.replicate 99 97 ++ [10]))
        [115] [107]).run [] := by
  have hsmall : (GetProfileString conf.KEYVALLEN roundUp
      (some ([91, 115, 93, 10, 107, 61] ++ List.replicate 99 97 ++ [10])) [115] [107]).run [] =
      .ok (0, List.replicate 97 97) := rfl
  have hlarge : (GetProfileString conf2.KEYVALLEN roundUp
      (some ([91, 115, 93, 10, 107, 61] ++ List.replicate 99 97 ++ [10])) [115] [107]).run [] =
      .ok (0, List.replicate 99 97) := rfl
  rw [hsmall, hlarge]
  simp

end basic_data_struct.conf_file
