import Mathlib.Data.List.DropRight

namespace stdio

/-- The strings that successive calls of `fgets` with a buffer of `n` bytes read from
a file, where `read` is what the current call has stored. A call ends at a newline
or when `n - 1` bytes are stored. -/
def fgetsFrom (n : Nat) : (read : List UInt8) → (file : List UInt8) → List (List UInt8)
  | read, [] => if read = [] then [] else [read]
  | read, b :: file =>
    if b = 10 ∨ read.length + 2 = n then (read ++ [b]) :: fgetsFrom n [] file
    else fgetsFrom n (read ++ [b]) file

/-- The strings that `fgets` reads from the start of a file. -/
def fgets (n : Nat) (file : List UInt8) : List (List UInt8) := fgetsFrom n [] file

/-- The lines of a file, each with its newline, after the start `read` of the first. -/
def linesFrom : (read : List UInt8) → (file : List UInt8) → List (List UInt8)
  | read, [] => if read = [] then [] else [read]
  | read, b :: file => if b = 10 then (read ++ [b]) :: linesFrom [] file else linesFrom (read ++ [b]) file

/-- The lines of a file, each with its newline. -/
def lines (file : List UInt8) : List (List UInt8) := linesFrom [] file

/-- The C string in a buffer. -/
def cstr (buf : List UInt8) : List UInt8 := buf.takeWhile (· ≠ 0)

section

variable {n : Nat} {read file : List UInt8}

/-- The current line is at least as long as what has been read of it. -/
theorem length_le_of_linesFrom {k : Nat} (hfit : ∀ line ∈ linesFrom read file, line.length ≤ k) : read.length ≤ k := by
  induction file generalizing read with
  | nil =>
    by_cases hread : read = []
    · simp [hread]
    · rw [linesFrom, if_neg hread] at hfit
      exact hfit read (List.mem_singleton_self read)
  | cons b file ih =>
    have hlonger : (read ++ [b]).length ≤ k := by
      rw [linesFrom] at hfit
      split at hfit
      · exact hfit (read ++ [b]) List.mem_cons_self
      · exact ih hfit
    rw [List.length_append] at hlonger
    omega

/-- A line that has one more byte is longer than what has been read of it. -/
theorem length_lt_of_linesFrom_cons {k : Nat} {b : UInt8}
    (hfit : ∀ line ∈ linesFrom read (b :: file), line.length ≤ k) : read.length < k := by
  have hlonger : (read ++ [b]).length ≤ k := by
    rw [linesFrom] at hfit
    split at hfit
    · exact hfit (read ++ [b]) List.mem_cons_self
    · exact length_le_of_linesFrom hfit
  rw [List.length_append, List.length_singleton] at hlonger
  exact hlonger

/-- Every byte of a line but the last is no newline. -/
theorem newline_notMem_dropLast (hread : 10 ∉ read) : ∀ line ∈ linesFrom read file, 10 ∉ line.dropLast := by
  induction file generalizing read with
  | nil =>
    intro line hline
    rw [linesFrom] at hline
    split at hline
    · cases hline
    · rw [List.mem_singleton] at hline
      subst hline
      exact fun hmem => hread (List.dropLast_subset line hmem)
  | cons b file ih =>
    rw [linesFrom]
    split
    · intro line hline
      rcases List.mem_cons.mp hline with rfl | hline
      · simpa using hread
      · exact ih (by simp) line hline
    · exact ih (by simp_all [eq_comm])

/-- Lines that fit into the buffer are read one by one. -/
theorem fgetsFrom_eq_linesFrom (hread : read.length + 1 < n) (hfit : ∀ line ∈ linesFrom read file,
    line.length + 1 ≤ n) : fgetsFrom n read file = linesFrom read file := by
  induction file generalizing read with
  | nil => rfl
  | cons b file ih =>
    rw [linesFrom] at hfit
    rw [fgetsFrom, linesFrom]
    by_cases hb : b = 10
    · rw [if_pos hb] at hfit
      rw [if_pos (.inl hb), if_pos hb]
      have hrest : fgetsFrom n [] file = linesFrom [] file :=
        ih (by simp; omega) fun line hline => hfit line (List.mem_cons_of_mem _ hline)
      rw [hrest]
    · rw [if_neg hb] at hfit
      rw [if_neg hb]
      by_cases hfull : read.length + 2 = n
      · -- the buffer is full: the line fits, so the file ends here
        cases file with
        | nil => simp [fgetsFrom, linesFrom, hfull]
        | cons c file =>
          have hlt := length_lt_of_linesFrom_cons (k := n - 1) fun line hline => by
            have hle := hfit line hline
            omega
          rw [List.length_append, List.length_singleton] at hlt
          omega
      · rw [if_neg (by simp [hb, hfull])]
        exact ih (by simp; omega) hfit

/-- Nothing follows a newline in its line. -/
theorem eq_nil_of_newline {line before after : List UInt8} (hline : line ∈ lines file)
    (hsplit : line = before ++ 10 :: after) : after = [] := by
  by_contra hne
  have hmem : 10 ∈ line.dropLast := by
    rw [hsplit, List.dropLast_append_of_ne_nil (by simp), List.dropLast_cons_of_ne_nil hne]
    simp
  exact newline_notMem_dropLast (by simp) line hline hmem

/-- Where every line fits into the buffer, `fgets` reads line by line. -/
theorem fgets_eq_lines (hn : 1 < n) (hfit : ∀ line ∈ lines file, line.length + 1 ≤ n) : fgets n file = lines file :=
  fgetsFrom_eq_linesFrom (by simpa using hn) hfit

end

end stdio
