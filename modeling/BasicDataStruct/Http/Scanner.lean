import BasicDataStruct.Runs.Loop
import BasicDataStruct.Stdio.CString
import BasicDataStruct.Text.Crlf

open crlf runs stdio

namespace basic_data_struct.http

variable {s t : Scanner}

inductive CHECK_STATE where
  | REQUESTLINE
  | HEADER
  | CONTENT
deriving DecidableEq

inductive LINE_STATUS where
  | LINE_OK
  | LINE_BAD
  | LINE_OPEN
deriving DecidableEq

/-- The array that a parser receives into, up to `read_index`, and its other two indices. The bytes
behind `read_index` are not read. -/
structure Scanner where
  buffer : List UInt8
  checked_index : Nat
  start_line : Nat

def Scanner.read_index (s : Scanner) : Nat := s.buffer.length

/-- One round of the loop of `parse_line`. -/
def Scanner.check (s : Scanner) : Scanner ⊕ LINE_STATUS × Scanner :=
  match s.buffer[s.checked_index]? with
  | none => .inr (.LINE_OPEN, s)
  | some temp =>
    if temp = CR then
      match s.buffer[s.checked_index + 1]? with
      | none => .inr (.LINE_OPEN, s)
      | some next =>
        if next = LF then
          .inr (.LINE_OK, { s with
            buffer := (s.buffer.set s.checked_index 0).set (s.checked_index + 1) 0
            checked_index := s.checked_index + 2 })
        else .inr (.LINE_BAD, s)
    else if temp = LF then
      if 1 < s.checked_index ∧ s.buffer[s.checked_index - 1]? = some CR then
        .inr (.LINE_OK, { s with
          buffer := (s.buffer.set (s.checked_index - 1) 0).set s.checked_index 0
          checked_index := s.checked_index + 1 })
      else .inr (.LINE_BAD, s)
    else .inl { s with checked_index := s.checked_index + 1 }

theorem Scanner.check_next (h : s.check = .inl t) :
    t = { s with checked_index := s.checked_index + 1 } ∧ s.checked_index < s.buffer.length := by
  unfold Scanner.check at h
  grind

/-- The function `parse_line` that both parsers have. -/
def Scanner.lineLoop : Loop Scanner (LINE_STATUS × Scanner) where
  body := Scanner.check
  measure s := s.buffer.length - s.checked_index
  decreases := by
    intro s t h
    obtain ⟨rfl, hlt⟩ := Scanner.check_next h
    show s.buffer.length - (s.checked_index + 1) < s.buffer.length - s.checked_index
    omega

def Scanner.parse_line (s : Scanner) : LINE_STATUS × Scanner := lineLoop.run s

/-- The line that starts at `start_line`. -/
def Scanner.text (s : Scanner) : List UInt8 := cstr (s.buffer.drop s.start_line)

/-- Replace the line that starts at `start_line`. -/
def Scanner.overwrite (s : Scanner) (text : List UInt8) : Scanner :=
  { s with buffer := s.buffer.take s.start_line ++ text ++ s.buffer.drop (s.start_line + text.length) }

/-- More bytes are received. -/
def Scanner.receive (s : Scanner) (data : List UInt8) : Scanner := { s with buffer := s.buffer ++ data }

/-- What `parse_line` does to the indices: the checked part of the buffer only grows, and a line that is complete lies
behind what was checked before. -/
structure Scanner.Scanned (s : Scanner) (status : LINE_STATUS) (t : Scanner) : Prop where
  start_line : t.start_line = s.start_line
  length : t.buffer.length = s.buffer.length
  grows : s.checked_index ≤ t.checked_index
  bound : s.checked_index ≤ s.buffer.length → t.checked_index ≤ s.buffer.length
  ok : status = .LINE_OK → s.checked_index < t.checked_index ∧ s.checked_index < s.buffer.length

theorem Scanner.scanned {status : LINE_STATUS} (h : s.parse_line = (status, t)) : s.Scanned status t := by
  suffices s.Scanned s.parse_line.1 s.parse_line.2 by
    rw [h] at this
    exact this
  refine lineLoop.run_induction (motive := fun s result => s.Scanned result.1 result.2) ?_ ?_ s
  · intro s t result hnext ih
    obtain ⟨rfl, hlt⟩ := Scanner.check_next hnext
    refine ⟨ih.start_line, ih.length, Nat.le_of_succ_le ih.grows, fun _ => ih.bound hlt, fun hok => ⟨?_, hlt⟩⟩
    exact Nat.lt_of_succ_lt (ih.ok hok).1
  · rintro s ⟨status, t⟩ hdone
    simp only [lineLoop, check] at hdone
    constructor <;> grind

theorem Scanner.length_overwrite (s : Scanner) {text : List UInt8} (htext : text.length = s.text.length) :
    (s.overwrite text).buffer.length = s.buffer.length := by
  have hle : s.text.length ≤ (s.buffer.drop s.start_line).length := (cstr_start _).length_le
  rw [List.length_drop] at hle
  simp only [Scanner.overwrite, List.length_append, List.length_take, List.length_drop]
  omega

theorem Scanner.overwrite_text (s : Scanner) : s.overwrite s.text = s := by
  obtain ⟨rest, hrest⟩ := cstr_start (s.buffer.drop s.start_line)
  have hdrop : s.buffer.drop (s.start_line + s.text.length) = rest := by
    rw [← List.drop_drop, ← hrest, Scanner.text, List.drop_left]
  have hbuffer : s.buffer.take s.start_line ++ s.text ++ s.buffer.drop (s.start_line + s.text.length) = s.buffer := by
    rw [hdrop, List.append_assoc, Scanner.text, hrest, List.take_append_drop]
  rw [Scanner.overwrite, hbuffer]

abbrev blanks : List UInt8 := [32, 9]

/-- What `parse_requestline` and `parse_request_line` have in common: the URL, or nothing for
`BAD_REQUEST`, and the line after the stores into it. -/
def request_line (text : List UInt8) : Option (List UInt8) × List UInt8 :=
  match strpbrk text blanks with
  | none => (none, text)
  | some found =>
    let method := text.take (text.length - found.length)
    let url := found.tail
    let text := method ++ 0 :: url
    if strcasecmp method (ascii "GET") then
      let url := url.drop (strspn url blanks)
      match strpbrk url blanks with
      | none => (none, text)
      | some found =>
        let url := url.take (url.length - found.length)
        let text := text.take (text.length - found.length) ++ 0 :: found.tail
        let version := found.tail.drop (strspn found.tail blanks)
        if strcasecmp version (ascii "HTTP/1.1") then
          let url := if strncasecmp url (ascii "http://") 7 then strchr (url.drop 7) 47 else some url
          match url with
          | none => (none, text)
          | some url => if url.head? = some 47 then (some url, text) else (none, text)
        else (none, text)
    else (none, text)

section

variable {text found : List UInt8}

/-- A store through a pointer that `strpbrk` gave. -/
theorem length_store (hne : found ≠ []) (hle : found.length ≤ text.length) :
    (text.take (text.length - found.length) ++ 0 :: found.tail).length = text.length := by
  have hpos : 0 < found.length := List.length_pos_of_ne_nil hne
  rw [List.length_append, List.length_take, List.length_cons, List.length_tail]
  omega

theorem length_request_line (text : List UInt8) : (request_line text).2.length = text.length := by
  unfold request_line
  split
  · rfl
  next found hfound =>
    obtain ⟨hne, hsuffix⟩ := suffix_of_strpbrk hfound
    have hfirst := length_store hne hsuffix.length_le
    dsimp only
    split
    · split
      · exact hfirst
      next found' hfound' =>
        obtain ⟨hne', hsuffix'⟩ := suffix_of_strpbrk hfound'
        have hle : found'.length ≤ (text.take (text.length - found.length) ++ 0 :: found.tail).length := by
          have hlength := hsuffix'.length_le
          rw [List.length_drop] at hlength
          rw [List.length_append, List.length_cons]
          omega
        have hsecond := (length_store hne' hle).trans hfirst
        split
        · split
          · exact hsecond
          · split <;> exact hsecond
        · exact hsecond
    · exact hfirst

end

/-- A scanner in the middle of a line: the bytes of `line` are checked, those of `rest` are not. -/
structure Scanner.Holds (s : Scanner) (before line rest : List UInt8) : Prop where
  buffer : s.buffer = before ++ (line ++ rest)
  start_line : s.start_line = before.length
  checked_index : s.checked_index = before.length + line.length
  plain : ∀ b ∈ line, Plain b
  closed : before.getLast? ≠ some CR

namespace Scanner.Holds

variable {s : Scanner} {before line rest : List UInt8}

theorem getElem?_checked (hs : s.Holds before line rest) (i : Nat) :
    s.buffer[s.checked_index + i]? = rest[i]? := by
  rw [hs.buffer, hs.checked_index, Nat.add_assoc, List.getElem?_append_right (Nat.le_add_right _ _),
    Nat.add_sub_cancel_left, List.getElem?_append_right (Nat.le_add_right _ _), Nat.add_sub_cancel_left]

theorem parse_line_nil (hs : s.Holds before line []) : s.parse_line = (.LINE_OPEN, s) := by
  refine Loop.run_of_done ?_
  have hnone : s.buffer[s.checked_index]? = none := hs.getElem?_checked 0
  simp only [lineLoop, check, hnone]

theorem parse_line_cr (hs : s.Holds before line [CR]) : s.parse_line = (.LINE_OPEN, s) := by
  refine Loop.run_of_done ?_
  have hcr : s.buffer[s.checked_index]? = some CR := hs.getElem?_checked 0
  have hnone : s.buffer[s.checked_index + 1]? = none := hs.getElem?_checked 1
  simp only [lineLoop, check, hcr, hnone, if_true]

theorem parse_line_cr_other {c : UInt8} (hc : c ≠ LF) (hs : s.Holds before line (CR :: c :: rest)) :
    s.parse_line = (.LINE_BAD, s) := by
  refine Loop.run_of_done ?_
  have hcr : s.buffer[s.checked_index]? = some CR := hs.getElem?_checked 0
  have hother : s.buffer[s.checked_index + 1]? = some c := hs.getElem?_checked 1
  simp only [lineLoop, check, hcr, hother, if_true, if_neg hc]

theorem parse_line_crlf (hs : s.Holds before line (CR :: LF :: rest)) :
    s.parse_line = (.LINE_OK, { s with
      buffer := before ++ (line ++ 0 :: 0 :: rest)
      checked_index := s.checked_index + 2 }) := by
  refine Loop.run_of_done ?_
  have hcr : s.buffer[s.checked_index]? = some CR := hs.getElem?_checked 0
  have hlf : s.buffer[s.checked_index + 1]? = some LF := hs.getElem?_checked 1
  have hstores : (s.buffer.set s.checked_index 0).set (s.checked_index + 1) 0 =
      before ++ (line ++ 0 :: 0 :: rest) := by
    rw [hs.buffer, hs.checked_index, ← List.append_assoc, ← List.length_append,
      List.set_append_right _ _ (Nat.le_refl _), Nat.sub_self, List.set_append_right _ _ (Nat.le_add_right _ _),
      Nat.add_sub_cancel_left, List.append_assoc]
    rfl
  simp only [lineLoop, check, hcr, hlf, if_true, hstores]

/-- The byte before a line feed that comes first in what is left is no carriage return: it would have been
checked. -/
theorem parse_line_lf (hs : s.Holds before line (LF :: rest)) : s.parse_line = (.LINE_BAD, s) := by
  refine Loop.run_of_done ?_
  have hlf : s.buffer[s.checked_index]? = some LF := hs.getElem?_checked 0
  have hprevious : ¬(1 < s.checked_index ∧ s.buffer[s.checked_index - 1]? = some CR) := by
    rintro ⟨hlt, hcr⟩
    rw [hs.buffer, hs.checked_index, ← List.append_assoc, ← List.length_append,
      List.getElem?_append_left (Nat.sub_lt (by rw [List.length_append, ← hs.checked_index]; omega) Nat.one_pos),
      ← List.getLast?_eq_getElem?, List.getLast?_append] at hcr
    cases hlast : line.getLast? with
    | none =>
      rw [hlast, Option.none_or] at hcr
      exact hs.closed hcr
    | some b =>
      rw [hlast, Option.some_or] at hcr
      cases hcr
      exact (hs.plain CR (List.mem_of_getLast? hlast)).1 rfl
  simp only [lineLoop, check, hlf, if_neg (show LF ≠ CR by decide), if_true, if_neg hprevious]

theorem advance {b : UInt8} (hb : Plain b) (hs : s.Holds before line (b :: rest)) :
    s.parse_line = { s with checked_index := s.checked_index + 1 }.parse_line ∧
      { s with checked_index := s.checked_index + 1 : Scanner }.Holds before (line ++ [b]) rest := by
  have hbyte : s.buffer[s.checked_index]? = some b := hs.getElem?_checked 0
  refine ⟨Loop.run_of_next ?_, ?_, hs.start_line, ?_, ?_, hs.closed⟩
  · simp only [lineLoop, check, hbyte, if_neg hb.1, if_neg hb.2]
  · rw [hs.buffer, List.append_assoc line, List.singleton_append]
  · simp only [hs.checked_index, List.length_append, List.length_singleton, Nat.add_assoc]
  · intro c hc
    rcases List.mem_append.mp hc with hc | hc
    · exact hs.plain c hc
    · rw [List.mem_singleton.mp hc]
      exact hb

/-- A line that is complete: its text, and the next line after stores into it. -/
theorem complete (hs : s.Holds before line (CR :: LF :: rest)) :
    ∃ t, s.parse_line = (.LINE_OK, t) ∧ t.text = cstr line ∧ t.buffer.length = s.buffer.length ∧
      ∀ text : List UInt8, text.length = (cstr line).length → ∃ before',
        { t.overwrite text with start_line := t.checked_index : Scanner }.Holds before' [] rest ∧
          (t.overwrite text).buffer.length = s.buffer.length := by
  have hlength := (Scanner.scanned hs.parse_line_crlf).length
  refine ⟨_, hs.parse_line_crlf, ?_, hlength, fun text htext => ?_⟩
  · rw [Scanner.text, hs.start_line, List.drop_left, cstr_append_zero]
  have hle : (cstr line).length ≤ line.length := (cstr_start line).length_le
  have hbefore : (before ++ text ++ line.drop text.length ++ [0, 0]).length = before.length + line.length + 2 := by
    simp only [List.length_append, List.length_drop, List.length_cons, List.length_nil]
    omega
  have hbuffer : before ++ text ++ (before ++ (line ++ 0 :: 0 :: rest)).drop (before.length + text.length) =
      before ++ text ++ line.drop text.length ++ [0, 0] ++ ([] ++ rest) := by
    rw [List.drop_append, List.drop_append_of_le_length (by omega)]
    simp
  refine ⟨before ++ text ++ line.drop text.length ++ [0, 0], ⟨?_, ?_, ?_, nofun, ?_⟩, ?_⟩
  · simp only [Scanner.overwrite, hs.start_line, List.take_left, hbuffer]
  · simp only [hs.checked_index, hbefore]
  · simp only [Scanner.overwrite, hs.checked_index, hbefore, List.length_nil, Nat.add_zero]
  · rw [List.getLast?_append]
    show some (0 : UInt8) ≠ some CR
    decide
  · simp only [Scanner.overwrite, hs.start_line, List.take_left, hbuffer, hs.buffer]
    rw [List.length_append, hbefore]
    simp only [List.length_append, List.length_cons, List.length_nil]
    omega

theorem receive (hs : s.Holds before line rest) (data : List UInt8) :
    (s.receive data).Holds before line (rest ++ data) := by
  refine ⟨?_, hs.start_line, hs.checked_index, hs.plain, hs.closed⟩
  rw [Scanner.receive, hs.buffer, List.append_assoc, List.append_assoc]

end Scanner.Holds

end basic_data_struct.http
