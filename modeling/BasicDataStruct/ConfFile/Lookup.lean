import BasicDataStruct.ConfFile.Profile

open machine

namespace basic_data_struct.conf_file

/-- A line from its first character on that is no white space. -/
def text (line : List UInt8) : List UInt8 := l_trim (stdio.cstr line)

def isBlank (c : UInt8) : Bool := c = 32 ∨ c = 9

def isHeader (AppName line : List UInt8) : Bool := (91 :: (AppName ++ [93])).isPrefixOf (text line)

def opens (line : List UInt8) : Bool := (text line).head? = some 91

/-- The lines between the header of a section and the next line with a bracket. -/
def sectionOf (AppName : List UInt8) (lines : List (List UInt8)) : List (List UInt8) :=
  (lines.dropWhile fun line => !isHeader AppName line).tail.takeWhile fun line => !opens line

/-- The value that a line gives to a key. -/
def assigned (KeyName line : List UInt8) : Option (List UInt8) :=
  if (text line).head? ≠ some 35 ∧ KeyName <+: text line then
    match ((text line).drop KeyName.length).dropWhile isBlank with
    | [] => none
    | c :: value => if c = 61 then some (a_trim value) else none
  else none

/-- What a profile says about a key. -/
def lookup (AppName KeyName file : List UInt8) : Option (List UInt8) :=
  (sectionOf AppName (stdio.lines file)).findSome? (assigned KeyName)

/-- The result that a lookup asks for: 0 with the value, or -1. -/
def Answers (value : Option (List UInt8)) (result : Except Fault (Int32 × List UInt8)) : Prop :=
  match value with
  | some value => result = .ok (0, value)
  | none => ∃ KeyVal, result = .ok (-1, KeyVal)

/-- What stands between the first word of a line and its `=`. -/
def gap (buf : List UInt8) : List UInt8 := (buf.dropWhile fun b => !endsName b).takeWhile (· ≠ 61)

def Proper (buf : List UInt8) : Prop := ∀ b ∈ gap buf, isBlank b

/-- The text of a line after its `=`. -/
def value (buf : List UInt8) : List UInt8 := untilNewline ((afterEq buf).getD [])

/-- The lines at which the search in a section ends: the first word is the key, or it
does not fit into `keyname`. -/
def Hit (KeyName line : List UInt8) : Prop :=
  (text line).head? ≠ some 35 ∧ 61 ∈ text line ∧ (word (text line) = KeyName ∨ NAMELEN ≤ (word (text line)).length)

instance (KeyName line : List UInt8) : Decidable (Hit KeyName line) := inferInstanceAs (Decidable (_ ∧ _ ∧ _))

/-- `KeyVal` before it is trimmed. -/
def stored (KeyVal value : List UInt8) : List UInt8 := if value = [] then KeyVal else value

/-- `KeyVal` after it is trimmed. -/
def delivered (malloc : Nat → Option Nat) (KeyVal value : List UInt8) : List UInt8 :=
  if malloc ((stored KeyVal value).length + 1) = none ∨ a_trim (stored KeyVal value) = [] then stored KeyVal value
  else a_trim (stored KeyVal value)

/-- The temporary buffer, if there is one, is large enough for the `memset`. -/
def Room (malloc : Nat → Option Nat) (KeyVal value : List UInt8) : Prop :=
  ∀ size, malloc ((stored KeyVal value).length + 1) = some size → sizeof_KeyVal_o ≤ size

/-- The value reaches `KeyVal` without the white space around it. -/
def Kept (malloc : Nat → Option Nat) (KeyVal value : List UInt8) : Prop :=
  if value = [] then KeyVal = []
  else a_trim value ≠ [] ∧ (malloc (value.length + 1) = none → a_trim value = value)

section Lines

variable {KeyName c blanks buf line : List UInt8}

theorem endsName_of_isBlank {b : UInt8} (hb : isBlank b) : endsName b := by
  simp only [isBlank, endsName, decide_eq_true_eq] at *
  tauto

theorem afterEq_cons (b : UInt8) : afterEq (b :: buf) = if b = 61 then some buf else afterEq buf := by
  by_cases hb : b = 61 <;> simp [afterEq, hb]

theorem afterEq_append {front : List UInt8} (hfront : 61 ∉ front) : afterEq (front ++ buf) = afterEq buf := by
  induction front with
  | nil => rfl
  | cons b front ih =>
    rw [List.mem_cons, not_or] at hfront
    rw [List.cons_append, afterEq_cons, if_neg (Ne.symm hfront.1), ih hfront.2]

theorem afterEq_eq_none : afterEq buf = none ↔ 61 ∉ buf := by
  induction buf with
  | nil => simp [afterEq]
  | cons b buf ih =>
    rw [afterEq_cons, List.mem_cons, not_or, ← ih]
    by_cases hb : b = 61 <;> simp [hb, eq_comm]

theorem split_of_afterEq (hafter : afterEq buf = some c) : buf.takeWhile (· ≠ 61) ++ 61 :: c = buf := by
  induction buf with
  | nil => simp [afterEq] at hafter
  | cons b buf ih =>
    rw [afterEq_cons] at hafter
    by_cases hb : b = 61
    · simp_all
    · rw [if_neg hb] at hafter
      simpa [hb] using ih hafter

/-- The parts of an assignment to a key. -/
theorem assignment_parts (hname : ∀ b ∈ KeyName, ¬endsName b) (hblanks : ∀ b ∈ blanks, isBlank b)
    (htext : KeyName ++ (blanks ++ 61 :: c) = buf) : word buf = KeyName ∧ gap buf = blanks ∧ afterEq buf = some c := by
  subst htext
  have hblank : 61 ∉ blanks := fun hmem => by simpa [isBlank] using hblanks 61 hmem
  have hkey : 61 ∉ KeyName := fun hmem => hname 61 hmem (by decide)
  have hinside : ∀ b ∈ KeyName, (!endsName b) = true := fun b hb => by simpa using hname b hb
  have hrest : (blanks ++ 61 :: c).takeWhile (fun b => !endsName b) = [] ∧
      (blanks ++ 61 :: c).dropWhile (fun b => !endsName b) = blanks ++ 61 :: c := by
    cases blanks with
    | nil => simp [endsName]
    | cons b blanks => simp [endsName_of_isBlank (hblanks b List.mem_cons_self)]
  refine ⟨?_, ?_, ?_⟩
  · rw [word, List.takeWhile_append_of_pos hinside, hrest.1, List.append_nil]
  · rw [gap, List.dropWhile_append_of_pos hinside, hrest.2,
      List.takeWhile_append_of_pos fun b hb => by simpa using ne_of_mem_of_not_mem hb hblank]
    simp
  · rw [afterEq_append hkey, afterEq_append hblank, afterEq_cons, if_pos rfl]

/-- A line with an `=` is its first word, the gap, and the text after the `=`. -/
theorem eq_of_afterEq (hafter : afterEq buf = some c) : buf = word buf ++ (gap buf ++ 61 :: c) := by
  have hsplit : word buf ++ buf.dropWhile (fun b => !endsName b) = buf := List.takeWhile_append_dropWhile
  have hword : 61 ∉ word buf := fun hmem => by simpa [endsName] using List.mem_takeWhile_imp hmem
  have hrest : afterEq (buf.dropWhile fun b => !endsName b) = some c := by rw [← afterEq_append hword, hsplit, hafter]
  rw [gap, split_of_afterEq hrest, hsplit]

/-- The lines that assign to a key: the first word is the key, and blanks stand before
the `=`. -/
theorem assigned_eq_some {v : List UInt8} (hname : ∀ b ∈ KeyName, ¬endsName b) :
    assigned KeyName line = some v ↔ (text line).head? ≠ some 35 ∧ word (text line) = KeyName ∧ Proper (text line) ∧
      ∃ c, afterEq (text line) = some c ∧ a_trim c = v := by
  constructor
  · intro hassigned
    rw [assigned] at hassigned
    split at hassigned
    next hkey =>
      obtain ⟨hhash, rest, htext⟩ := hkey
      rw [← htext, List.drop_left] at hassigned
      split at hassigned
      next => cases hassigned
      next b c hdrop =>
        obtain ⟨rfl, hv⟩ : b = 61 ∧ a_trim c = v := by simpa using hassigned
        have hrest : rest.takeWhile isBlank ++ 61 :: c = rest := by rw [← hdrop, List.takeWhile_append_dropWhile]
        have hblanks : ∀ b ∈ rest.takeWhile isBlank, isBlank b := fun b hb => List.mem_takeWhile_imp hb
        obtain ⟨hword, hgap, hafter⟩ := assignment_parts hname hblanks (by rw [hrest, htext])
        exact ⟨hhash, hword, by rw [Proper, hgap]; exact hblanks, c, hafter, hv⟩
    next => cases hassigned
  · rintro ⟨hhash, hword, hproper, c, hafter, rfl⟩
    have htext := eq_of_afterEq hafter
    rw [hword] at htext
    rw [assigned, if_pos ⟨hhash, _, htext.symm⟩]
    have hdrop : ((text line).drop KeyName.length).dropWhile isBlank = 61 :: c := by
      rw [htext, List.drop_left, List.dropWhile_append_of_pos hproper]
      simp [isBlank]
    rw [hdrop]
    exact if_pos rfl

/-- Trimming removes the newline. -/
theorem a_trim_append_newline : a_trim (c ++ [10]) = a_trim c := by
  have hspace : isspace 10 := by decide
  rw [a_trim, l_trim, List.dropWhile_append]
  split
  next hempty =>
    rw [List.isEmpty_iff] at hempty
    rw [a_trim, l_trim, hempty, List.dropWhile_cons_of_pos hspace, List.dropWhile_nil]
  next => rw [List.rdropWhile_concat_pos _ _ _ hspace, a_trim, l_trim]

/-- Reading up to the newline leaves nothing out that trimming keeps. -/
theorem a_trim_untilNewline (hlast : ∀ before after, c = before ++ 10 :: after → after = []) :
    a_trim (untilNewline c) = a_trim c := by
  have hsplit : untilNewline c ++ c.dropWhile (· ≠ 10) = c := List.takeWhile_append_dropWhile
  cases hdrop : c.dropWhile (· ≠ 10) with
  | nil => rw [hdrop, List.append_nil] at hsplit; rw [hsplit]
  | cons b after =>
    have hb : b = 10 := by
      have hhead := List.head?_dropWhile_not (· ≠ 10) c
      rw [hdrop] at hhead
      simpa using hhead
    rw [hdrop, hb] at hsplit
    rw [hlast _ _ hsplit.symm] at hsplit
    conv_rhs => rw [← hsplit]
    rw [a_trim_append_newline]

/-- In a line of a file nothing follows the newline. -/
theorem eq_nil_of_afterEq {file before after : List UInt8} (hline : line ∈ stdio.lines file)
    (hafter : afterEq (text line) = some c) (hc : c = before ++ 10 :: after) : after = [] := by
  have hsuffix : c <:+ text line := ⟨word (text line) ++ (gap (text line) ++ [61]), by
    conv_rhs => rw [eq_of_afterEq hafter]
    simp⟩
  have htext : text line <:+ stdio.cstr line := List.dropWhile_suffix _
  have hstring : stdio.cstr line <+: line := List.takeWhile_prefix _
  obtain ⟨front, back, hsplit⟩ : c <:+: line := ((hsuffix.trans htext).isInfix).trans hstring.isInfix
  have hnewline : line = (front ++ before) ++ 10 :: (after ++ back) := by rw [← hsplit, hc]; simp
  have hnil : after ++ back = [] := stdio.eq_nil_of_newline hline hnewline
  exact (List.append_eq_nil_iff.mp hnil).1

end Lines

end basic_data_struct.conf_file
