import Mathlib.Data.List.TakeDrop

namespace crlf

variable {line' rest : List UInt8}

abbrev CR : UInt8 := 13

abbrev LF : UInt8 := 10

/-- A byte that is no part of a line ending. -/
def Plain (b : UInt8) : Prop := b ≠ CR ∧ b ≠ LF

instance (b : UInt8) : Decidable (Plain b) := inferInstanceAs (Decidable (b ≠ CR ∧ b ≠ LF))

/-- What becomes of a reader at the end of the bytes it has got: it waits behind `line`, with a `CR`
in `rest` if that is the last byte; it has met a line ending other than `CR LF`; or it has stopped
with a result at the end of a line, with bytes left. -/
inductive Outcome (ρ β : Type) where
  | waits (state : ρ) (line rest : List UInt8)
  | broken (state : ρ)
  | stops (result : β) (rest : List UInt8)
deriving DecidableEq

variable {ρ β : Type} (handle : ρ → List UInt8 → ρ ⊕ β)

/-- A reader of lines that end with `CR LF`. For each line `handle` gives the next state of the reader
or its result; `line` is the part of the current line that was read before. -/
def readLines : ρ → (line : List UInt8) → (bytes : List UInt8) → Outcome ρ β
  | state, line, [] => .waits state line []
  | state, line, b :: bytes =>
    if b = CR then
      match bytes with
      | [] => .waits state line [CR]
      | c :: bytes =>
        if c = LF then
          match handle state line with
          | .inl state => readLines state [] bytes
          | .inr result => .stops result bytes
        else .broken state
    else if b = LF then .broken state
    else readLines state (line ++ [b]) bytes

variable {handle} {state : ρ} {line bytes : List UInt8}

@[simp] theorem readLines_nil : readLines handle state line [] = .waits state line [] := by rw [readLines]

@[simp] theorem readLines_cr :
    readLines handle state line [CR] = .waits state line [CR] := by
  rw [readLines, if_pos rfl]

theorem readLines_crlf_next {next : ρ} (h : handle state line = .inl next) :
    readLines handle state line (CR :: LF :: bytes) = readLines handle next [] bytes := by
  rw [readLines, if_pos rfl]
  simp only [if_pos, h]

theorem readLines_crlf_stop {result : β} (h : handle state line = .inr result) :
    readLines handle state line (CR :: LF :: bytes) = .stops result bytes := by
  rw [readLines, if_pos rfl]
  simp only [if_pos, h]

theorem readLines_cr_other {c : UInt8} (hc : c ≠ LF) :
    readLines handle state line (CR :: c :: bytes) = .broken state := by
  rw [readLines, if_pos rfl]
  simp only [if_neg hc]

theorem readLines_lf : readLines handle state line (LF :: bytes) = .broken state := by
  rw [readLines.eq_def]
  simp only [if_neg (show LF ≠ CR by decide), if_true]

theorem readLines_plain {b : UInt8} (hb : Plain b) :
    readLines handle state line (b :: bytes) = readLines handle state (line ++ [b]) bytes := by
  rw [readLines.eq_def]
  simp only [if_neg hb.1, if_neg hb.2]

/-- The cases that a reader distinguishes. -/
theorem cases_bytes (bytes : List UInt8) :
    bytes = [] ∨ bytes = [CR] ∨ (∃ rest, bytes = CR :: LF :: rest) ∨ (∃ c rest, c ≠ LF ∧ bytes = CR :: c :: rest) ∨
      (∃ rest, bytes = LF :: rest) ∨ ∃ b rest, Plain b ∧ bytes = b :: rest := by
  cases bytes with
  | nil => exact .inl rfl
  | cons b rest =>
    by_cases hcr : b = CR
    · subst hcr
      cases rest with
      | nil => exact .inr (.inl rfl)
      | cons c rest =>
        by_cases hlf : c = LF
        · exact .inr (.inr (.inl ⟨rest, by rw [hlf]⟩))
        · exact .inr (.inr (.inr (.inl ⟨c, rest, hlf, rfl⟩)))
    · by_cases hlf : b = LF
      · exact .inr (.inr (.inr (.inr (.inl ⟨rest, by rw [hlf]⟩))))
      · exact .inr (.inr (.inr (.inr (.inr ⟨b, rest, ⟨hcr, hlf⟩, rfl⟩))))

/-- Induction over what a reader reads. -/
theorem readLines_induction (handle : ρ → List UInt8 → ρ ⊕ β) {motive : ρ → List UInt8 → List UInt8 → Prop}
    (nil : ∀ state line, motive state line [])
    (cr : ∀ state line, motive state line [CR])
    (next : ∀ state line bytes state', handle state line = .inl state' → motive state' [] bytes →
      motive state line (CR :: LF :: bytes))
    (stop : ∀ state line bytes result, handle state line = .inr result → motive state line (CR :: LF :: bytes))
    (cr_other : ∀ state line c bytes, c ≠ LF → motive state line (CR :: c :: bytes))
    (lf : ∀ state line bytes, motive state line (LF :: bytes))
    (plain : ∀ state line b bytes, Plain b → motive state (line ++ [b]) bytes → motive state line (b :: bytes))
    (state : ρ) (line bytes : List UInt8) : motive state line bytes := by
  induction hlength : bytes.length using Nat.strongRecOn generalizing state line bytes with
  | ind n ih =>
    subst hlength
    rcases cases_bytes bytes with rfl | rfl | ⟨rest, rfl⟩ | ⟨c, rest, hc, rfl⟩ | ⟨rest, rfl⟩ | ⟨b, rest, hb, rfl⟩
    · exact nil state line
    · exact cr state line
    · cases hhandle : handle state line with
      | inl state' =>
        have hshorter : rest.length < (CR :: LF :: rest).length := Nat.lt_add_of_pos_right (Nat.zero_lt_two)
        exact next state line rest state' hhandle (ih _ hshorter state' [] rest rfl)
      | inr result => exact stop state line rest result hhandle
    · exact cr_other state line c rest hc
    · exact lf state line rest
    · exact plain state line b rest hb (ih _ (by simp) state (line ++ [b]) rest rfl)

/-- What becomes of a reader when more bytes come. -/
def Outcome.resume (handle : ρ → List UInt8 → ρ ⊕ β) : Outcome ρ β → List UInt8 → Outcome ρ β
  | .waits state line rest, more => readLines handle state line (rest ++ more)
  | .broken state, _ => .broken state
  | .stops result rest, more => .stops result (rest ++ more)

/-- It does not matter where a stream is cut. -/
theorem readLines_append (handle : ρ → List UInt8 → ρ ⊕ β) (state : ρ) (line bytes more : List UInt8) :
    readLines handle state line (bytes ++ more) = (readLines handle state line bytes).resume handle more := by
  induction state, line, bytes using readLines_induction handle with
  | nil state line => rw [readLines_nil, Outcome.resume]
  | cr state line => rw [readLines_cr, Outcome.resume]
  | next state line bytes next hnext ih =>
    rw [List.cons_append, List.cons_append, readLines_crlf_next hnext, readLines_crlf_next hnext, ih]
  | stop state line bytes result hstop =>
    rw [List.cons_append, List.cons_append, readLines_crlf_stop hstop, readLines_crlf_stop hstop, Outcome.resume]
  | cr_other state line c bytes hc =>
    rw [List.cons_append, List.cons_append, readLines_cr_other hc, readLines_cr_other hc, Outcome.resume]
  | lf state line bytes => rw [List.cons_append, readLines_lf, readLines_lf, Outcome.resume]
  | plain state line b bytes hb ih => rw [List.cons_append, readLines_plain hb, readLines_plain hb, ih]

/-- A reader that waits has nothing left but the start of a line ending. -/
theorem rest_of_waits {state' : ρ}
    (h : readLines handle state line bytes = .waits state' line' rest) : rest = [] ∨ rest = [CR] := by
  induction state, line, bytes using readLines_induction handle with
  | nil state line =>
    rw [readLines_nil] at h
    cases h
    exact .inl rfl
  | cr state line =>
    rw [readLines_cr] at h
    cases h
    exact .inr rfl
  | next state line bytes next hnext ih =>
    rw [readLines_crlf_next hnext] at h
    exact ih h
  | stop state line bytes result hstop =>
    rw [readLines_crlf_stop hstop] at h
    cases h
  | cr_other state line c bytes hc =>
    rw [readLines_cr_other hc] at h
    cases h
  | lf state line bytes =>
    rw [readLines_lf] at h
    cases h
  | plain state line b bytes hb ih =>
    rw [readLines_plain hb] at h
    exact ih h

/-- Without more bytes a reader that waits stays where it is. -/
theorem readLines_of_waits {state' : ρ} (h : readLines handle state line bytes = .waits state' line' rest) :
    readLines handle state' line' rest = .waits state' line' rest := by
  rcases rest_of_waits h with rfl | rfl
  · exact readLines_nil
  · exact readLines_cr

/-- What holds for the state that a reader ends in, or for its result. -/
def Outcome.Satisfies (Inv : ρ → Prop) (Post : β → Prop) : Outcome ρ β → Prop
  | .waits state _ _ => Inv state
  | .broken state => Inv state
  | .stops result _ => Post result

/-- An invariant of the states that lines lead to. -/
theorem readLines_satisfies (Inv : ρ → Prop) (Post : β → Prop)
    (hnext : ∀ state line next, Inv state → handle state line = .inl next → Inv next)
    (hstop : ∀ state line result, Inv state → handle state line = .inr result → Post result)
    (hstate : Inv state) (line bytes : List UInt8) : (readLines handle state line bytes).Satisfies Inv Post := by
  induction state, line, bytes using readLines_induction handle with
  | nil state line =>
    rw [readLines_nil]
    exact hstate
  | cr state line =>
    rw [readLines_cr]
    exact hstate
  | next state line bytes next hhandle ih =>
    rw [readLines_crlf_next hhandle]
    exact ih (hnext state line next hstate hhandle)
  | stop state line bytes result hhandle =>
    rw [readLines_crlf_stop hhandle]
    exact hstop state line result hstate hhandle
  | cr_other state line c bytes hc =>
    rw [readLines_cr_other hc]
    exact hstate
  | lf state line bytes =>
    rw [readLines_lf]
    exact hstate
  | plain state line b bytes hb ih =>
    rw [readLines_plain hb]
    exact ih hstate

end crlf
