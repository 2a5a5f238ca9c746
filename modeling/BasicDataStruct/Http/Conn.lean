import BasicDataStruct.Machine.Exec
import BasicDataStruct.Http.Scanner

open crlf runs socket stdio

namespace basic_data_struct.http

abbrev READ_BUFFER_SIZE : Nat := 2048

inductive METHOD where
  | GET
  | POST
  | HEAD
  | PUT
  | DELETE
  | TRACE
  | OPTIONS
  | CONNECT
  | PATCH
deriving DecidableEq

inductive HTTP_CODE where
  | NO_REQUEST
  | GET_REQUEST
  | BAD_REQUEST
  | NO_RESOURCE
  | FORBIDDEN_REQUEST
  | FILE_REQUEST
  | INTERNAL_ERROR
  | CLOSED_CONNECTION
deriving DecidableEq

/-- How `process_read` ends: with a result of its own, with a call of `do_request`, or with a store outside
of `m_read_buf`. -/
inductive Answer where
  | returns (code : HTTP_CODE)
  | do_request
  | out_of_bounds
deriving DecidableEq

/-- What a connection has learned from the lines so far. -/
structure Head where
  m_check_state : CHECK_STATE
  m_method : METHOD
  m_url : Option (List UInt8)
  m_host : Option (List UInt8)
  m_content_length : Int
  m_linger : Bool

/-- A connection. Its scanner has the bytes of `m_read_buf` up to `m_read_idx`, which are followed by
NULs, and the indices `m_checked_idx` and `m_start_line`. -/
structure http_conn extends Scanner, Head

def Head.init : Head where
  m_check_state := .REQUESTLINE
  m_method := .GET
  m_url := none
  m_host := none
  m_content_length := 0
  m_linger := false

def http_conn.init : http_conn where
  buffer := []
  checked_index := 0
  start_line := 0
  toHead := .init

def http_conn.parse_line (c : http_conn) : LINE_STATUS × http_conn :=
  let (line_status, s) := c.toScanner.parse_line
  (line_status, { c with toScanner := s })

/-- The loop of `read`, for the results of its calls of `recv`. When they are used up there is nothing more to
receive. -/
def http_conn.recvLoop (c : http_conn) : List Recv → Bool × http_conn
  | [] | .again :: _ => (true, c)
  | .error :: _ => (false, c)
  | .bytes data :: results =>
    let data := data.take (READ_BUFFER_SIZE - c.read_index)
    if data = [] then (false, c)
    else { c with toScanner := c.toScanner.receive data : http_conn }.recvLoop results

def http_conn.read (c : http_conn) (results : List Recv) : Bool × http_conn :=
  if READ_BUFFER_SIZE ≤ c.read_index then (false, c) else c.recvLoop results

/-- The result, what is learned, and the line after the stores into it. -/
def Head.parse_request_line (h : Head) (text : List UInt8) : HTTP_CODE × Head × List UInt8 :=
  match request_line text with
  | (none, text) => (.BAD_REQUEST, h, text)
  | (some m_url, text) =>
      (.NO_REQUEST, { h with m_url := some m_url, m_method := .GET, m_check_state := .HEADER }, text)

/-- What follows the name of a header and blanks. -/
def field (text : List UInt8) (name : String) : List UInt8 :=
  (text.drop (ascii name).length).drop (strspn (text.drop (ascii name).length) blanks)

def Head.parse_headers (h : Head) (text : List UInt8) : HTTP_CODE × Head :=
  if text = [] then
    if h.m_method = .HEAD then (.GET_REQUEST, h)
    else if h.m_content_length ≠ 0 then (.NO_REQUEST, { h with m_check_state := .CONTENT })
    else (.GET_REQUEST, h)
  else if strncasecmp text (ascii "Connection:") 11 then
    if strcasecmp (field text "Connection:") (ascii "keep-alive") then (.NO_REQUEST, { h with m_linger := true })
    else (.NO_REQUEST, h)
  else if strncasecmp text (ascii "Content-Length:") 15 then
    (.NO_REQUEST, { h with m_content_length := (atol (field text "Content-Length:")).bmod 4294967296 })
  else if strncasecmp text (ascii "Host:") 5 then
    (.NO_REQUEST, { h with m_host := some (field text "Host:") })
  else (.NO_REQUEST, h)

/-- The function `parse_content` for the line that starts at `text`, or nothing when its store is outside
of `m_read_buf`. -/
def http_conn.parse_content (c : http_conn) (text : Nat) : Option (HTTP_CODE × http_conn) :=
  if (c.m_content_length + c.checked_index).bmod 4294967296 ≤ c.read_index then
    if 0 ≤ text + c.m_content_length ∧ text + c.m_content_length < READ_BUFFER_SIZE then
      some (.GET_REQUEST, { c with buffer := c.buffer.set (text + c.m_content_length).toNat 0 })
    else none
  else some (.NO_REQUEST, c)

/-- The body of the loop of `process_read`, behind `parse_line`. -/
def http_conn.handle (c : http_conn) : http_conn × LINE_STATUS ⊕ Answer × http_conn :=
  match c.m_check_state with
  | .REQUESTLINE =>
    let (ret, h, text) := c.toHead.parse_request_line c.text
    let c := { c.toScanner.overwrite text, h with start_line := c.checked_index : http_conn }
    if ret = .BAD_REQUEST then .inr (.returns .BAD_REQUEST, c) else .inl (c, .LINE_OK)
  | .HEADER =>
    let (ret, h) := c.toHead.parse_headers c.text
    let c := { c.toScanner, h with start_line := c.checked_index : http_conn }
    if ret = .BAD_REQUEST then .inr (.returns .BAD_REQUEST, c)
    else if ret = .GET_REQUEST then .inr (.do_request, c)
    else .inl (c, .LINE_OK)
  | .CONTENT =>
    let next := { c with start_line := c.checked_index : http_conn }
    match next.parse_content c.start_line with
    | none => .inr (.out_of_bounds, next)
    | some (ret, next) => if ret = .GET_REQUEST then .inr (.do_request, next) else .inl (next, .LINE_OPEN)

/-- One round of the loop of `process_read`. -/
def http_conn.round (s : http_conn × LINE_STATUS) : http_conn × LINE_STATUS ⊕ Answer × http_conn :=
  if s.1.m_check_state = .CONTENT ∧ s.2 = .LINE_OK then s.1.handle
  else
    match s.1.parse_line with
    | (.LINE_OK, c) => c.handle
    | (_, c) => .inr (.returns .NO_REQUEST, c)

theorem http_conn.handle_next {c d : http_conn} {line_status : LINE_STATUS} (h : c.handle = .inl (d, line_status)) :
    d.checked_index = c.checked_index ∧ d.buffer.length = c.buffer.length ∧
      (c.m_check_state = .CONTENT → line_status = .LINE_OPEN) := by
  have hlength : (c.toScanner.overwrite (request_line c.text).2).buffer.length = c.buffer.length :=
    c.length_overwrite (length_request_line c.text)
  unfold http_conn.handle Head.parse_request_line http_conn.parse_content at h
  grind [Scanner.overwrite]

/-- Rounds that are left: a line that is complete has at least one byte, and the content is looked at once
without a line. -/
def http_conn.rounds (s : http_conn × LINE_STATUS) : Nat :=
  2 * (s.1.buffer.length - s.1.checked_index) + if s.1.m_check_state = .CONTENT ∧ s.2 = .LINE_OK then 1 else 0

def readLoop : Loop (http_conn × LINE_STATUS) (Answer × http_conn) where
  body := http_conn.round
  measure := http_conn.rounds
  decreases := by
    rintro ⟨c, line_status⟩ ⟨d, line_status'⟩ h
    unfold http_conn.round at h
    split at h
    next hcontent =>
      obtain ⟨hchecked, hlength, hopen⟩ := http_conn.handle_next h
      have hleft : ¬(d.m_check_state = .CONTENT ∧ line_status' = .LINE_OK) := by
        rw [hopen hcontent.1]
        rintro ⟨_, ⟨⟩⟩
      simp only [http_conn.rounds, if_pos hcontent, if_neg hleft, hchecked, hlength]
      omega
    next =>
      unfold http_conn.parse_line at h
      cases hline : c.toScanner.parse_line with
      | mk status s =>
        simp only [hline] at h
        cases status with
        | LINE_OK =>
          obtain ⟨_, hlength, _, _, hok⟩ := Scanner.scanned hline
          obtain ⟨hlt, hbound⟩ := hok rfl
          obtain ⟨hchecked, hlength', _⟩ := http_conn.handle_next h
          simp only [http_conn.rounds, hchecked, hlength']
          split <;> omega
        | LINE_OPEN => cases h
        | LINE_BAD => cases h

def http_conn.process_read (c : http_conn) : Answer × http_conn := readLoop.run (c, .LINE_OK)

/-- What a connection makes of a complete line before the content. -/
inductive Stop where
  | bad_request
  | do_request
  | content (h : Head)

def judge (h : Head) (line : List UInt8) : Head ⊕ Stop :=
  match h.m_check_state with
  | .REQUESTLINE =>
    match h.parse_request_line (cstr line) with
    | (.BAD_REQUEST, _, _) => .inr .bad_request
    | (_, h, _) => .inl h
  | .HEADER =>
    match h.parse_headers (cstr line) with
    | (.GET_REQUEST, _) => .inr .do_request
    | (_, h) => if h.m_check_state = .CONTENT then .inr (.content h) else .inl h
  | .CONTENT => .inr (.content h)

theorem Head.parse_headers_code (h : Head) (text : List UInt8) :
    (h.parse_headers text).1 = .NO_REQUEST ∨ (h.parse_headers text).1 = .GET_REQUEST := by
  unfold Head.parse_headers
  grind

/-- The content length after a header. -/
def announced (m_content_length : Int) (text : List UInt8) : Int :=
  if strncasecmp text (ascii "Content-Length:") 15 then (atol (field text "Content-Length:")).bmod 4294967296
  else m_content_length

theorem not_connection_of_content_length {text : List UInt8}
    (h : strncasecmp text (ascii "Content-Length:") 15 = true) : strncasecmp text (ascii "Connection:") 11 = false := by
  have hlength : (text.take 15).map tolower = ((ascii "Content-Length:").take 15).map tolower := of_decide_eq_true h
  refine decide_eq_false fun hconnection => ?_
  have hstart : ((text.take 15).map tolower).take 11 = (text.take 11).map tolower := by
    rw [← List.map_take, List.take_take]
    rfl
  rw [hlength, hconnection] at hstart
  exact absurd hstart (by decide)

/-- A header only leaves what it says. -/
theorem Head.parse_headers_field (h : Head) {text : List UInt8} (htext : text ≠ []) :
    (h.parse_headers text).1 = .NO_REQUEST ∧ (h.parse_headers text).2.m_check_state = h.m_check_state ∧
      (h.parse_headers text).2.m_method = h.m_method ∧
      (h.parse_headers text).2.m_content_length = announced h.m_content_length text := by
  unfold Head.parse_headers announced
  rw [if_neg htext]
  cases hlength : strncasecmp text (ascii "Content-Length:") 15 with
  | true =>
    simp [not_connection_of_content_length hlength]
  | false =>
    cases strncasecmp text (ascii "Connection:") 11 with
    | true => cases strcasecmp (field text "Connection:") (ascii "keep-alive") <;> simp
    | false => cases strncasecmp text (ascii "Host:") 5 <;> simp

theorem judge_field {h : Head} {line : List UInt8} (hstate : h.m_check_state = .HEADER) (hline : cstr line ≠ []) :
    judge h line = .inl (h.parse_headers (cstr line)).2 := by
  obtain ⟨hret, hstate', _, _⟩ := h.parse_headers_field hline
  simp only [judge, hstate]
  cases hparse : h.parse_headers (cstr line) with
  | mk ret h' =>
    rw [hparse] at hret hstate'
    cases hret
    have hcontent : h'.m_check_state ≠ .CONTENT := by
      rw [show h'.m_check_state = .HEADER from hstate'.trans hstate]
      decide
    simp only [if_neg hcontent]

section

variable {c : http_conn} {line_status : LINE_STATUS} {before line rest : List UInt8}

theorem http_conn.round_of_head (hstate : c.m_check_state ≠ .CONTENT) {status : LINE_STATUS} {s : Scanner}
    (hline : c.toScanner.parse_line = (status, s)) :
    http_conn.round (c, line_status) = if status = .LINE_OK then http_conn.handle { c with toScanner := s }
      else .inr (.returns .NO_REQUEST, { c with toScanner := s }) := by
  have hcontent : ¬(c.m_check_state = .CONTENT ∧ line_status = .LINE_OK) := fun h => hstate h.1
  simp only [http_conn.round, if_neg hcontent, http_conn.parse_line, hline]
  cases status <;> rfl

/-- The loop at a line that is complete. -/
theorem http_conn.round_crlf (hstate : c.m_check_state ≠ .CONTENT) (hc : c.Holds before line (CR :: LF :: rest))
    (line_status : LINE_STATUS) :
    match judge c.toHead line with
    | .inl h => ∃ d before', http_conn.round (c, line_status) = .inl (d, .LINE_OK) ∧ d.Holds before' [] rest ∧
        d.toHead = h ∧ h.m_check_state ≠ .CONTENT ∧ d.buffer.length = c.buffer.length
    | .inr .bad_request => ∃ d, http_conn.round (c, line_status) = .inr (.returns .BAD_REQUEST, d)
    | .inr .do_request => ∃ d, http_conn.round (c, line_status) = .inr (.do_request, d)
    | .inr (.content h) => ∃ d before', http_conn.round (c, line_status) = .inl (d, .LINE_OK) ∧
        d.Holds before' [] rest ∧ d.toHead = h ∧ d.buffer.length = c.buffer.length := by
  obtain ⟨s, hline, htext, hlength, hnext⟩ := hc.complete
  rw [http_conn.round_of_head hstate hline, if_pos rfl]
  cases hcheck : c.m_check_state with
  | REQUESTLINE =>
    have hstores := length_request_line (cstr line)
    simp only [judge, http_conn.handle, Head.parse_request_line, hcheck, htext]
    cases hrequest : request_line (cstr line) with
    | mk url text =>
      rw [hrequest] at hstores
      cases url with
      | none => exact ⟨_, rfl⟩
      | some url =>
        obtain ⟨before', hholds, hlength⟩ := hnext text hstores
        exact ⟨_, before', rfl, hholds, rfl, by simp, hlength⟩
  | HEADER =>
    obtain ⟨before', hholds, -⟩ := hnext (cstr line) rfl
    rw [← htext, Scanner.overwrite_text] at hholds
    have hret := c.toHead.parse_headers_code (cstr line)
    simp only [judge, http_conn.handle, hcheck, htext]
    cases hparse : c.toHead.parse_headers (cstr line) with
    | mk ret h =>
      rw [hparse] at hret
      rcases hret with rfl | rfl
      · by_cases hcontent : h.m_check_state = .CONTENT
        · simp only [if_pos hcontent]
          exact ⟨_, before', rfl, hholds, rfl, hlength⟩
        · simp only [if_neg hcontent]
          exact ⟨_, before', rfl, hholds, rfl, hcontent, hlength⟩
      · exact ⟨_, rfl⟩
  | CONTENT => exact absurd hcheck hstate

/-- The loop of `process_read` before the content, in terms of the lines of the bytes that are left. A line
ending that is not right does not end it: it is found again by the next call. -/
theorem readLoop_spec (hstate : c.m_check_state ≠ .CONTENT) (hc : c.Holds before line rest)
    (line_status : LINE_STATUS) :
    match readLines judge c.toHead line rest with
    | .waits h line' rest' => ∃ d before', readLoop.run (c, line_status) = (.returns .NO_REQUEST, d) ∧
        d.Holds before' line' rest' ∧ d.toHead = h ∧ h.m_check_state ≠ .CONTENT ∧ d.buffer.length = c.buffer.length
    | .broken h => ∃ d before' line' rest', readLoop.run (c, line_status) = (.returns .NO_REQUEST, d) ∧
        d.Holds before' line' rest' ∧ d.toHead = h ∧ h.m_check_state ≠ .CONTENT ∧
        readLines judge h line' rest' = .broken h
    | .stops .bad_request _ => ∃ d, readLoop.run (c, line_status) = (.returns .BAD_REQUEST, d)
    | .stops .do_request _ => ∃ d, readLoop.run (c, line_status) = (.do_request, d)
    | .stops (.content h) rest' => ∃ d before', readLoop.run (c, line_status) = readLoop.run (d, .LINE_OK) ∧
        d.Holds before' [] rest' ∧ d.toHead = h ∧ d.buffer.length = c.buffer.length := by
  generalize hhead : c.toHead = h
  induction h, line, rest using readLines_induction judge generalizing c line_status before with
  | nil h line =>
    rw [readLines_nil]
    refine ⟨c, before, Loop.run_of_done ?_, hc, hhead, hhead ▸ hstate, rfl⟩
    exact http_conn.round_of_head hstate hc.parse_line_nil
  | cr h line =>
    rw [readLines_cr]
    refine ⟨c, before, Loop.run_of_done ?_, hc, hhead, hhead ▸ hstate, rfl⟩
    exact http_conn.round_of_head hstate hc.parse_line_cr
  | next h line bytes next hnext ih =>
    rw [readLines_crlf_next hnext]
    have hline := http_conn.round_crlf hstate hc line_status
    rw [hhead, hnext] at hline
    obtain ⟨d, before', hround, hd, rfl, hcontent, hlength⟩ := hline
    have hrun : readLoop.run (c, line_status) = readLoop.run (d, .LINE_OK) := Loop.run_of_next hround
    rw [hrun, ← hlength]
    exact ih hcontent hd .LINE_OK rfl
  | stop h line bytes result hstop =>
    rw [readLines_crlf_stop hstop]
    have hline := http_conn.round_crlf hstate hc line_status
    rw [hhead, hstop] at hline
    cases result with
    | bad_request =>
      obtain ⟨d, hround⟩ := hline
      exact ⟨d, Loop.run_of_done hround⟩
    | do_request =>
      obtain ⟨d, hround⟩ := hline
      exact ⟨d, Loop.run_of_done hround⟩
    | content h' =>
      obtain ⟨d, before', hround, hd, hhead', hlength⟩ := hline
      exact ⟨d, before', Loop.run_of_next hround, hd, hhead', hlength⟩
  | cr_other h line b bytes hb =>
    rw [readLines_cr_other hb]
    refine ⟨c, before, line, CR :: b :: bytes, Loop.run_of_done ?_, hc, hhead, hhead ▸ hstate, readLines_cr_other hb⟩
    exact http_conn.round_of_head hstate (hc.parse_line_cr_other hb)
  | lf h line bytes =>
    rw [readLines_lf]
    refine ⟨c, before, line, LF :: bytes, Loop.run_of_done ?_, hc, hhead, hhead ▸ hstate, readLines_lf⟩
    exact http_conn.round_of_head hstate hc.parse_line_lf
  | plain h line b bytes hb ih =>
    rw [readLines_plain hb]
    obtain ⟨hline, hadvance⟩ := hc.advance hb
    have hrun : readLoop.run (c, line_status) =
        readLoop.run ({ c with checked_index := c.checked_index + 1 }, line_status) := by
      refine Loop.run_congr ?_
      have hcontent : ¬(c.m_check_state = .CONTENT ∧ line_status = .LINE_OK) := fun h => hstate h.1
      simp only [readLoop, http_conn.round, http_conn.parse_line, hline, if_neg hcontent]
    rw [hrun]
    exact ih (c := { c with checked_index := c.checked_index + 1 }) hstate hadvance line_status hhead

end

end basic_data_struct.http
