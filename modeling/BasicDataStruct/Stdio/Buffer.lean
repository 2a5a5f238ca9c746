import BasicDataStruct.Machine.Exec
import BasicDataStruct.Stdio.CString

open machine machine.Exec

namespace stdio

/-- A computation on one byte array. -/
abbrev OnBuffer := Exec (List UInt8)

/-- The array holds the string `s`, ended by a NUL; anything may stand behind it. -/
def HoldsString (buf s : List UInt8) : Prop := 0 ∉ s ∧ ∃ rest, buf = s ++ 0 :: rest

/-- Read the byte at index `i`. -/
def readByte (i : Nat) : OnBuffer UInt8 := do
  match (← get)[i]? with
  | some b => return b
  | none => fail .bounds

/-- Write the byte at index `i`. -/
def writeByte (i : Nat) (b : UInt8) : OnBuffer Unit := do
  inBounds i (← get).length
  modify fun buf => buf.set i b

/-- The length of the string in the array; the NUL that ends it is read too. -/
def strlen : OnBuffer Nat := do
  let buf ← get
  inBounds (cstr buf).length buf.length
  return (cstr buf).length

/-- Copy the string at `src`, with the NUL that ends it, to the start of the array. -/
def strcpy (src : List UInt8) : OnBuffer Unit := do
  inBounds (cstr src).length src.length
  inBounds (cstr src).length (← get).length
  modify fun buf => cstr src ++ 0 :: buf.drop ((cstr src).length + 1)

section

variable {buf src s t : List UInt8}

theorem HoldsString.cstr_eq (h : HoldsString buf s) : cstr buf = s := by
  obtain ⟨hs, rest, rfl⟩ := h
  rw [cstr_append_zero, cstr, List.takeWhile_eq_self_iff]
  intro b hb
  simpa using ne_of_mem_of_not_mem hb hs

theorem HoldsString.length_lt (h : HoldsString buf s) : s.length < buf.length := by
  obtain ⟨-, rest, rfl⟩ := h
  simp

theorem run_readByte {i : Nat} {b : UInt8} (h : buf[i]? = some b) : (readByte i).run buf = .ok (b, buf) := by
  simp [readByte, run_bind, h]

theorem run_writeByte {i : Nat} (h : i < buf.length) (b : UInt8) :
    (writeByte i b).run buf = .ok ((), buf.set i b) := by
  simp [writeByte, run_bind, run_inBounds h]

theorem run_strlen (h : HoldsString buf s) : strlen.run buf = .ok (s.length, buf) := by
  simp [strlen, run_bind, h.cstr_eq, run_inBounds h.length_lt]

theorem run_strcpy (h : HoldsString src s) (hroom : s.length < buf.length) :
    (strcpy src).run buf = .ok ((), s ++ 0 :: buf.drop (s.length + 1)) := by
  simp [strcpy, run_bind, h.cstr_eq, run_inBounds h.length_lt, run_inBounds hroom]

/-- A NUL written into a string cuts it off there. -/
theorem HoldsString.set (h : HoldsString buf (s ++ t)) : HoldsString (buf.set s.length 0) s := by
  obtain ⟨hst, rest, rfl⟩ := h
  refine ⟨fun hs => hst (List.mem_append_left _ hs), (t ++ 0 :: rest).tail, ?_⟩
  rw [List.append_assoc, List.set_append_right _ _ le_rfl, Nat.sub_self]
  cases t <;> rfl

end

end stdio
